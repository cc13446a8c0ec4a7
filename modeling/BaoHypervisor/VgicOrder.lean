import BaoHypervisor.VgicWrites
import BaoHypervisor.WriteOrder

/-!
# The order of guest writes

A guest write of a register field takes effect at once when the writer owns the
interrupt or nobody does; otherwise it is sent to the owner, which may have
yielded the interrupt when the message arrives.  Writes are numbered as guests
issue them, and `applied` records those that took effect.
-/

namespace Bao

open WriteOrder

variable (P : VgicPlat)

/-- The guest write a message carries: its writer and interrupt are its
class. -/
def writeItem : VgicMsg → Option (Item (Nat × IntKey))
  | .setReg vgicrId intId reg _ (some tag) =>
      if reg = .irouter then none
      else (vgicGetInt P intId vgicrId).map fun k => ⟨(tag.writer, k), tag.num⟩
  | _ => none

/-- The guest writes that wait at each CPU and those that took effect. -/
def vgicDesk (s : VgicState) : Desk (Nat × IntKey) where
  queue c := (s.inbox c).filterMap (writeItem P)
  done := s.applied.filterMap fun a => a.tag.map fun tag => ⟨(tag.writer, a.key), tag.num⟩
  issued := s.issued

/-- No earlier write of vCPU `v` to the interrupt waits at CPU `c`. -/
abbrev NoneWaits (s : VgicState) (c v : Nat) (k : IntKey) : Prop := (vgicDesk P s).Clear c (v, k)

/-- A guest write finds the earlier writes of its vCPU to the interrupt that
still wait at the CPU of the interrupt's owner, another vCPU; and a write that
is sent on a second time leaves none of them behind it in the queue. -/
def KeepsOrder (s : VgicState) (e : VgicEvent) : Prop :=
  match e.op with
  | .writeField _ intId vgicrId _ =>
      ∀ k ∈ vgicGetInt P intId vgicrId, ∀ w, w < P.vcpuNum →
        NoneWaits P s (P.physId w) e.vcpu k ∨ (w ≠ e.vcpu ∧ (s.ints k).owner = some w)
  | .deliver =>
      match s.inbox (P.physId e.vcpu) with
      | [] => True
      | msg :: rest =>
          ∀ i ∈ writeItem P msg, (vgicGetOwnership e.vcpu i.cls.2 s).1 = true ∨
            ∀ j ∈ rest.filterMap (writeItem P), j.cls ≠ i.cls
  | _ => True

/-- An interrupt of a new VM after register updates, the latest first. -/
def replay (k : IntKey) : List AppliedWrite → VgicInt
  | [] => initInt P k 0 false
  | a :: as => if a.key = k then updateField P a.reg k a.data (replay k as) else replay k as

/-- The tag of the update a deed makes or sends on. -/
def VgicDeed.tag : VgicDeed → Option WriteTag
  | .field _ _ _ tag => tag
  | .forward _ _ _ _ tag => tag
  | _ => none

section Desk

variable {P}
variable {v : Nat} {k : IntKey} {s s' : VgicState}

theorem writeItem_none {msg : VgicMsg} (h : msg.write = none) : writeItem P msg = none := by
  cases msg with
  | setReg vgicrId intId reg val tag =>
    cases tag with
    | none => rfl
    | some tag =>
      unfold VgicMsg.write at h
      unfold writeItem
      dsimp only at h ⊢
      split at h
      · rename_i hreg
        rw [if_pos hreg]
      · cases h
  | _ => rfl

theorem Unwritten.desk (h : Unwritten s s') : vgicDesk P s' = vgicDesk P s := by
  have hqueue : ∀ c, (s'.inbox c).filterMap (writeItem P) = (s.inbox c).filterMap (writeItem P) := by
    intro c
    obtain ⟨msgs, heq, hmsgs⟩ := h.inbox c
    have hnone : msgs.filterMap (writeItem P) = [] :=
      List.filterMap_eq_nil_iff.mpr fun m hm => writeItem_none (hmsgs m hm)
    rw [heq, List.filterMap_append, hnone, List.append_nil]
  unfold vgicDesk
  rw [funext hqueue, h.applied, h.issued]

theorem Does.field_mail {reg : VgicReg} {data : Nat} {tag : Option WriteTag}
    (h : Does P v (.field reg k data tag) s s') :
    Unwritten { s with applied := ⟨k, reg, data, tag⟩ :: s.applied } s' := by
  cases h with
  | field reg k data tag hgot =>
    have hbefore := (Unwritten.getOwnership v k s).trans (.removeLr (P := P) v k _)
    refine ⟨?_, hbefore.issued, hbefore.inbox⟩
    rw [← hbefore.applied]
    rfl

theorem Does.forward_mail {reg : VgicReg} {vgicrId data : Nat} {tag : Option WriteTag}
    (h : Does P v (.forward reg k vgicrId data tag) s s') :
    ∃ w, w ≠ v ∧ (s.ints k).owner = some w ∧
      s' = s.sendMsg (.setReg vgicrId k.id reg data tag) (P.physId w) := by
  cases h with
  | forward reg k vgicrId data tag hgot =>
    rcases vgicGetOwnership_cases v k s with ⟨-, hget⟩ | ⟨-, hget⟩ | ⟨⟨w, hw, hown⟩, -⟩
    · rw [hget] at hgot
      cases hgot
    · rw [hget] at hgot
      cases hgot
    · refine ⟨w, hw, hown, ?_⟩
      unfold forwardToOwner
      rw [hown]

/-- A deed without a guest write leaves those that wait and those that took
effect. -/
theorem Does.desk_same {d : VgicDeed} (h : Does P v d s s') (htag : d.tag = none) :
    vgicDesk P s' = vgicDesk P s := by
  cases d with
  | field reg k data tag =>
    dsimp only [VgicDeed.tag] at htag
    subst htag
    exact h.field_mail.desk
  | forward reg k vgicrId data tag =>
    dsimp only [VgicDeed.tag] at htag
    subst htag
    obtain ⟨w, -, -, hs⟩ := h.forward_mail
    rw [hs]
    have hsent : Silent v s (s.sendMsg (.setReg vgicrId k.id reg data none) (P.physId w)) := by
      refine Silent.sendMsg s _ ?_
      unfold VgicMsg.write
      dsimp only
      split <;> rfl
    exact Unwritten.desk ⟨hsent.applied, hsent.issued, hsent.inbox⟩
  | _ =>
    refine (Unwritten.does h ?_ ?_).desk
    · intros
      exact VgicDeed.noConfusion
    · intros
      exact VgicDeed.noConfusion

theorem setFieldDeed_tag (reg : VgicReg) (vgicrId data : Nat) (tag : Option WriteTag) :
    (setFieldDeed v reg k vgicrId data tag s).tag = tag := by
  unfold setFieldDeed
  split <;> rfl

theorem injectDeed_tag (id source : Nat) : (injectDeed P v id source s).tag = none := by
  unfold injectDeed
  split
  · rfl
  · split
    · rfl
    · split
      · dsimp only
        split <;> rfl
      · exact setFieldDeed_tag _ _ _ _

theorem turnDeed_tag : (turnDeed P v s).tag = none := by
  unfold turnDeed
  split
  · rfl
  · split <;> rfl
  · split
    · rfl
    · split <;> rfl
  · split
    · rfl
    · split
      · rfl
      · split <;> rfl

theorem msgDeed_tag {msg : VgicMsg} (h : writeItem P msg = none) :
    (msgDeed P v msg s).tag = none := by
  cases msg with
  | inject intId val => exact injectDeed_tag intId val
  | setReg vgicrId intId reg val tag =>
    unfold msgDeed
    dsimp only
    cases hk : vgicGetInt P intId vgicrId with
    | none => rfl
    | some k =>
      dsimp only
      split
      · rfl
      · rename_i hreg
        rw [setFieldDeed_tag]
        cases tag with
        | none => rfl
        | some tag =>
          unfold writeItem at h
          dsimp only at h
          rw [if_neg hreg, hk] at h
          cases h
  | _ => rfl

end Desk

/-! ## Where guest writes wait -/

/-- What a message with a guest write was sent with. -/
def PostedTo (c : Nat) : VgicMsg → Prop
  | .setReg vgicrId intId _ _ _ =>
      vgicrId < P.vcpuNum ∧ (∃ k, vgicGetInt P intId vgicrId = some k) ∧
        ∃ w, w < P.vcpuNum ∧ c = P.physId w
  | _ => True

/-- Interrupts are owned by vCPUs of the VM, and guest writes wait at theirs
only. -/
structure Posted (s : VgicState) : Prop where
  owner : ∀ k w, (s.ints k).owner = some w → w < P.vcpuNum ∨ ∃ id, k = .priv w id
  mail : ∀ c, ∀ msg ∈ s.inbox c, msg.write ≠ none → PostedTo P c msg

namespace Posted

variable {P}
variable {v : Nat} {k : IntKey} {s s' : VgicState}

theorem init (h : VgicInit P s) : Posted P s where
  owner k w hown := by
    obtain ⟨lr, inSpilled, hint⟩ := h.ints k
    rw [hint] at hown
    cases k with
    | priv u id =>
      cases hown
      exact Or.inr ⟨id, rfl⟩
    | shared id => cases hown
  mail c msg hmsg := by
    rw [h.inbox c] at hmsg
    cases hmsg

theorem ofOwner (h : Posted P s) (hv : v < P.vcpuNum)
    (hown : ∀ k, (s'.ints k).owner = (s.ints k).owner ∨ (s'.ints k).owner = none ∨
      (s'.ints k).owner = some v)
    (hmail : ∀ c, ∀ msg ∈ s'.inbox c, msg.write ≠ none → PostedTo P c msg) : Posted P s' := by
  refine ⟨fun k w hw => ?_, hmail⟩
  rcases hown k with hk | hk | hk
  · rw [hk] at hw
    exact h.owner k w hw
  · rw [hk] at hw
    cases hw
  · rw [hk] at hw
    cases hw
    exact Or.inl hv

theorem unwritten (h : Posted P s) (hv : v < P.vcpuNum) (hu : Unwritten s s')
    (hown : ∀ k, (s'.ints k).owner = (s.ints k).owner ∨ (s'.ints k).owner = none ∨
      (s'.ints k).owner = some v) : Posted P s' := by
  refine h.ofOwner hv hown fun c msg hmsg hwrite => ?_
  obtain ⟨msgs, heq, hmsgs⟩ := hu.inbox c
  rw [heq] at hmsg
  rcases List.mem_append.mp hmsg with hmsg | hmsg
  · exact h.mail c msg hmsg hwrite
  · exact (hwrite (hmsgs msg hmsg)).elim

theorem forwardedTo (h : Posted P s) {w vgicrId intId : Nat} (hvgicr : vgicrId < P.vcpuNum)
    (hk : vgicGetInt P intId vgicrId = some k) (hown : (s.ints k).owner = some w) :
    w < P.vcpuNum := by
  rcases h.owner k w hown with hw | ⟨id, hid⟩
  · exact hw
  · rw [hid] at hk
    rw [vgicGetInt_mine hk]
    exact hvgicr

/-- **A deed** keeps it, if what it forwards is a guest write of an interrupt
of the VM. -/
theorem does {d : VgicDeed} (h : Posted P s) (hv : v < P.vcpuNum) (hd : Does P v d s s')
    (hforward : ∀ reg k vgicrId data tag, d = .forward reg k vgicrId data (some tag) →
      vgicrId < P.vcpuNum ∧ vgicGetInt P k.id vgicrId = some k) : Posted P s' := by
  cases d with
  | field reg k data tag =>
    have hset := KeepsSetup.field hd
    exact (show Posted P { s with applied := ⟨k, reg, data, tag⟩ :: s.applied } from
      ⟨h.owner, h.mail⟩).unwritten hv hd.field_mail hset.2.2
  | forward reg k vgicrId data tag =>
    have hset := KeepsSetup.does hd fun _ _ _ _ => VgicDeed.noConfusion
    refine h.ofOwner hv hset.owner fun c msg hmsg hwrite => ?_
    obtain ⟨w, -, hown, hs⟩ := hd.forward_mail
    rw [hs] at hmsg
    by_cases hc : c = P.physId w
    · subst hc
      unfold VgicState.sendMsg at hmsg
      dsimp only at hmsg
      rw [atCpu_same] at hmsg
      rcases List.mem_append.mp hmsg with hmsg | hmsg
      · exact h.mail _ msg hmsg hwrite
      · rw [List.mem_singleton.mp hmsg] at hwrite ⊢
        cases tag with
        | none =>
          refine (hwrite ?_).elim
          unfold VgicMsg.write
          dsimp only
          split <;> rfl
        | some tag =>
          obtain ⟨hvgicr, hk⟩ := hforward reg k vgicrId data tag rfl
          exact ⟨hvgicr, ⟨k, hk⟩, w, h.forwardedTo hvgicr hk hown, rfl⟩
    · unfold VgicState.sendMsg at hmsg
      dsimp only at hmsg
      rw [atCpu_other _ _ hc] at hmsg
      exact h.mail c msg hmsg hwrite
  | _ =>
    have hset := KeepsSetup.does hd fun _ _ _ _ => VgicDeed.noConfusion
    have hmail := Unwritten.does hd (fun _ _ _ _ => VgicDeed.noConfusion)
      fun _ _ _ _ _ => VgicDeed.noConfusion
    exact h.unwritten hv hmail hset.owner

end Posted

section Step

variable {P}
variable {e : VgicEvent} {s : VgicState}

theorem setFieldDeed_forward {v w u data data' : Nat} {reg reg' : VgicReg} {k k' : IntKey}
    {tag tag' : Option WriteTag}
    (h : setFieldDeed v reg k w data tag s = .forward reg' k' u data' tag') : w = u ∧ k = k' := by
  unfold setFieldDeed at h
  split at h
  · cases h
  · cases h
    exact ⟨rfl, rfl⟩

/-- A deed with a guest write is one of a register access, or of a message that
carries the write. -/
theorem VgicEvent.deed_tag (h : (e.deed P s).tag ≠ none) :
    (∃ reg intId vgicrId data k, e.op = .writeField reg intId vgicrId data ∧
      vgicGetInt P intId vgicrId = some k ∧
      e.deed P s = setFieldDeed e.vcpu reg k vgicrId data (some ⟨e.vcpu, s.issued⟩) (e.begin P s)) ∨
    (∃ vgicrId intId reg val tag k rest, e.op = .deliver ∧
      s.inbox (P.physId e.vcpu) = .setReg vgicrId intId reg val (some tag) :: rest ∧
      reg ≠ .irouter ∧ vgicGetInt P intId vgicrId = some k ∧
      e.deed P s = setFieldDeed e.vcpu reg k vgicrId val (some tag) (e.begin P s)) := by
  obtain ⟨v, op⟩ := e
  cases op with
  | writeField reg intId vgicrId data =>
    unfold VgicEvent.deed at h ⊢
    dsimp only at h ⊢
    cases hk : vgicGetInt P intId vgicrId with
    | none =>
      rw [hk] at h
      exact (h rfl).elim
    | some k => exact Or.inl ⟨reg, intId, vgicrId, data, k, rfl, hk, rfl⟩
  | deliver =>
    unfold VgicEvent.deed at h ⊢
    dsimp only at h ⊢
    cases hq : s.inbox (P.physId v) with
    | nil =>
      rw [hq] at h
      exact (h rfl).elim
    | cons msg rest =>
      rw [hq] at h
      dsimp only at h ⊢
      cases hitem : writeItem P msg with
      | none => exact (h (msgDeed_tag hitem)).elim
      | some i =>
        cases msg with
        | setReg vgicrId intId reg val tag =>
          cases tag with
          | none => cases hitem
          | some tag =>
            unfold writeItem at hitem
            dsimp only at hitem
            split at hitem
            · cases hitem
            · rename_i hreg
              cases hk : vgicGetInt P intId vgicrId with
              | none =>
                rw [hk] at hitem
                cases hitem
              | some k =>
                refine Or.inr ⟨vgicrId, intId, reg, val, tag, k, rest, rfl, rfl, hreg, hk, ?_⟩
                unfold msgDeed
                dsimp only
                rw [hk]
                exact if_neg hreg
        | _ => cases hitem
  | inject id source => exact (h (injectDeed_tag id source)).elim
  | maintain => exact (h turnDeed_tag).elim
  | writeRoute intId access val =>
    unfold VgicEvent.deed at h
    dsimp only at h
    split at h <;> exact (h rfl).elim
  | injectHw id =>
    unfold VgicEvent.deed at h
    dsimp only at h
    split at h <;> exact (h rfl).elim
  | _ => exact (h rfl).elim

theorem Posted.next (h : Posted P s) (hok : HandlersOk P s) (hen : e.enabled P s) :
    Posted P (e.next P s) := by
  obtain ⟨s₁, s₂, hdoes, hmoves, hend⟩ := hok.parts hen
  have hbegin : Posted P (e.begin P s) := by
    have hints := (VgicEvent.begin_quiet (P := P) e s).ints
    refine h.ofOwner (v := e.vcpu) hen.1 (fun k => Or.inl (by rw [hints])) ?_
    intro c msg hmsg
    refine h.mail c msg ?_
    unfold VgicEvent.begin at hmsg
    split at hmsg
    · exact hmsg
    · dsimp only at hmsg
      by_cases hc : c = P.physId e.vcpu
      · rw [hc, atCpu_same] at hmsg
        rw [hc]
        exact List.mem_of_mem_tail hmsg
      · rw [atCpu_other _ _ hc] at hmsg
        exact hmsg
    · exact hmsg
  have hdeed : Posted P s₁ := by
    refine hbegin.does hen.1 hdoes fun reg k vgicrId data tag hd => ?_
    have htag : (e.deed P s).tag ≠ none := by
      rw [hd]
      exact fun hnone => by cases hnone
    rcases VgicEvent.deed_tag htag with ⟨reg', intId, vgicrId', data', k', hop, hk, hset⟩ |
      ⟨vgicrId', intId, reg', val, tag', k', rest, hop, hq, hreg, hk, hset⟩
    · rw [hset] at hd
      obtain ⟨rfl, rfl⟩ := setFieldDeed_forward hd
      have hop' := hen.2
      rw [hop] at hop'
      rw [vgicGetInt_id hk]
      exact ⟨hop'.2.2.1, hk⟩
    · rw [hset] at hd
      obtain ⟨rfl, rfl⟩ := setFieldDeed_forward hd
      have hposted := h.mail (P.physId e.vcpu) _ (by rw [hq]; exact List.mem_cons_self) (by
        unfold VgicMsg.write
        dsimp only
        rw [if_neg hreg]
        exact fun hnone => by cases hnone)
      rw [vgicGetInt_id hk]
      exact ⟨hposted.1, hk⟩
  obtain ⟨hmail, hset⟩ := afterDeed_unwritten hmoves hend
  exact hdeed.unwritten hen.1 hmail hset.owner

theorem vgicGetOwnership_got (v : Nat) (k : IntKey) (s : VgicState) :
    (vgicGetOwnership v k s).1 = true ↔ (s.ints k).owner = some v ∨ (s.ints k).owner = none := by
  rcases vgicGetOwnership_cases v k s with ⟨hown, h⟩ | ⟨hown, h⟩ | ⟨⟨w, hw, hown⟩, h⟩ <;> rw [h, hown]
  · exact ⟨fun _ => Or.inl rfl, fun _ => rfl⟩
  · exact ⟨fun _ => Or.inr rfl, fun _ => rfl⟩
  · refine ⟨fun hgot => (by cases hgot), fun hmine => ?_⟩
    rcases hmine with hmine | hmine
    · cases hmine
      exact (hw rfl).elim
    · cases hmine

theorem Posted.waits (h : Posted P s) {c : Nat} {i : Item (Nat × IntKey)}
    (hi : i ∈ (vgicDesk P s).queue c) : ∃ w, w < P.vcpuNum ∧ c = P.physId w := by
  obtain ⟨msg, hmsg, hitem⟩ := List.mem_filterMap.mp hi
  have hwrite : msg.write ≠ none := by
    intro hnone
    rw [writeItem_none hnone] at hitem
    cases hitem
  have hposted := h.mail c msg hmsg hwrite
  cases msg with
  | setReg vgicrId intId reg val tag => exact hposted.2.2
  | _ => cases hitem

/-- The earlier writes of a vCPU that issues another wait at the interrupt's
owner only. -/
theorem KeepsOrder.clear {reg : VgicReg} {intId vgicrId data : Nat} {k : IntKey}
    (h : KeepsOrder P s e) (hp : Posted P s) (hop : e.op = .writeField reg intId vgicrId data)
    (hk : vgicGetInt P intId vgicrId = some k) {c : Nat}
    (hc : ∀ w, (s.ints k).owner = some w → w ≠ e.vcpu → c ≠ P.physId w) :
    NoneWaits P s c e.vcpu k := by
  intro i hi
  unfold KeepsOrder at h
  rw [hop] at h
  obtain ⟨w, hw, hcw⟩ := hp.waits hi
  rcases h k hk w hw with hnone | ⟨hne, hown⟩
  · rw [← hcw] at hnone
    exact hnone i hi
  · exact (hc w hown hne hcw).elim

theorem msgDeed_write {v : Nat} {msg : VgicMsg} {i : Item (Nat × IntKey)}
    (h : writeItem P msg = some i) : (msgDeed P v msg s).tag ≠ none := by
  cases msg with
  | setReg vgicrId intId reg val tag =>
    cases tag with
    | none => cases h
    | some tag =>
      unfold writeItem at h
      dsimp only at h
      split at h
      · cases h
      · rename_i hreg
        cases hk : vgicGetInt P intId vgicrId with
        | none =>
          rw [hk] at h
          cases h
        | some k =>
          unfold msgDeed
          dsimp only
          rw [hk]
          dsimp only
          rw [if_neg hreg, setFieldDeed_tag]
          exact fun hnone => by cases hnone
  | _ => cases h

theorem begin_desk (hen : e.enabled P s) (htag : (e.deed P s).tag = none) :
    (vgicDesk P s).Step (vgicDesk P (e.begin P s)) := by
  obtain ⟨v, op⟩ := e
  have hop := hen.2
  cases op with
  | writeField reg intId vgicrId data =>
    unfold VgicEvent.deed at htag
    dsimp only at htag
    cases hk : vgicGetInt P intId vgicrId with
    | none =>
      have hsome := hop.2.2.2.2.2
      rw [hk] at hsome
      cases hsome
    | some k =>
      rw [hk] at htag
      dsimp only at htag
      rw [setFieldDeed_tag] at htag
      cases htag
  | deliver =>
    unfold VgicEvent.deed at htag
    unfold VgicEvent.begin
    dsimp only at htag ⊢
    refine .rest (fun c => ?_) rfl rfl
    unfold vgicDesk
    dsimp only
    by_cases hc : c = P.physId v
    · rw [hc, atCpu_same]
      cases hq : s.inbox (P.physId v) with
      | nil => rfl
      | cons msg rest =>
        rw [hq] at htag
        cases hitem : writeItem P msg with
        | none => rw [List.filterMap_cons_none hitem, List.tail_cons]
        | some i => exact (msgDeed_write hitem htag).elim
    · rw [atCpu_other _ _ hc]
  | _ => exact .rest (fun _ => rfl) rfl rfl

theorem KeepsOrder.alone {vgicrId intId val : Nat} {reg : VgicReg} {tag : WriteTag} {k : IntKey}
    {rest : List VgicMsg} (h : KeepsOrder P s e) (hop : e.op = .deliver)
    (hq : s.inbox (P.physId e.vcpu) = .setReg vgicrId intId reg val (some tag) :: rest)
    (hitem : writeItem P (.setReg vgicrId intId reg val (some tag)) = some ⟨(tag.writer, k), tag.num⟩)
    (hgot : ¬ (vgicGetOwnership e.vcpu k s).1 = true) :
    ∀ j ∈ rest.filterMap (writeItem P), j.cls ≠ (tag.writer, k) := by
  unfold KeepsOrder at h
  rw [hop] at h
  dsimp only at h
  rw [hq] at h
  exact (h _ hitem).resolve_left hgot

/-- **A step** that keeps the order lets no guest write overtake another. -/
theorem desk_step (hp : Posted P s) (hok : HandlersOk P s) (hen : e.enabled P s)
    (hkeeps : KeepsOrder P s e) : (vgicDesk P s).Step (vgicDesk P (e.next P s)) := by
  obtain ⟨s₁, s₂, hdoes, hmoves, hend⟩ := hok.parts hen
  rw [(afterDeed_unwritten hmoves hend).1.desk]
  by_cases htag : (e.deed P s).tag = none
  · rw [hdoes.desk_same htag]
    exact begin_desk hen htag
  · rcases VgicEvent.deed_tag htag with ⟨reg, intId, vgicrId, data, k, hop, hk, hset⟩ |
      ⟨vgicrId, intId, reg, val, tag, k, rest, hop, hq, hreg, hk, hset⟩
    · have hbegin : e.begin P s = { s with issued := s.issued + 1 } := by
        unfold VgicEvent.begin
        rw [hop]
      rw [hset, hbegin] at hdoes
      unfold setFieldDeed at hdoes
      split at hdoes
      · rename_i hgot
        rw [hdoes.field_mail.desk]
        have hmine := (vgicGetOwnership_got _ _ _).mp hgot
        refine .direct (e.vcpu, k) (fun c => ?_) (fun c => rfl) rfl rfl
        refine hkeeps.clear hp hop hk fun w hown hne => ?_
        rcases hmine with hmine | hmine
        · exact (hne (Option.some.inj (hown.symm.trans hmine))).elim
        · cases hown.symm.trans hmine
      · obtain ⟨w, hw, hown, hs⟩ := hdoes.forward_mail
        rw [hs]
        have hop' := hen.2
        rw [hop] at hop'
        have hreg : reg ≠ .irouter := by
          intro hreg
          rw [hreg] at hop'
          cases hop'.2.1
        have hitem : writeItem P (.setReg vgicrId k.id reg data (some ⟨e.vcpu, s.issued⟩)) =
            some ⟨(e.vcpu, k), s.issued⟩ := by
          unfold writeItem
          dsimp only
          rw [if_neg hreg, vgicGetInt_id hk, hk]
          rfl
        refine .enqueue (e.vcpu, k) (P.physId w) (fun c hc => ?_) ?_ (fun c hc => ?_) rfl rfl
        · refine hkeeps.clear hp hop hk fun w' hown' _ hcw => hc ?_
          rw [hcw, Option.some.inj (hown'.symm.trans hown)]
        · unfold vgicDesk VgicState.sendMsg
          dsimp only
          rw [atCpu_same, List.filterMap_append, List.filterMap_cons_some hitem]
          rfl
        · unfold vgicDesk VgicState.sendMsg
          dsimp only
          rw [atCpu_other _ _ hc]
    · have hbegin : e.begin P s =
          { s with inbox := atCpu s.inbox (P.physId e.vcpu) (s.inbox (P.physId e.vcpu)).tail } := by
        unfold VgicEvent.begin
        rw [hop]
      have hitem : writeItem P (.setReg vgicrId intId reg val (some tag)) =
          some ⟨(tag.writer, k), tag.num⟩ := by
        unfold writeItem
        dsimp only
        rw [if_neg hreg, hk]
        rfl
      have hfront : (vgicDesk P s).queue (P.physId e.vcpu) =
          ⟨(tag.writer, k), tag.num⟩ :: rest.filterMap (writeItem P) := by
        unfold vgicDesk
        dsimp only
        rw [hq, List.filterMap_cons_some hitem]
      rw [hset, hbegin, hq, List.tail_cons] at hdoes
      unfold setFieldDeed at hdoes
      split at hdoes
      · rw [hdoes.field_mail.desk]
        refine .handle ⟨(tag.writer, k), tag.num⟩ (P.physId e.vcpu) ?_ (fun c hc => ?_) rfl rfl
        · rw [hfront]
          unfold vgicDesk
          dsimp only
          rw [atCpu_same]
        · unfold vgicDesk
          dsimp only
          rw [atCpu_other _ _ hc]
      · rename_i hgot
        obtain ⟨w, hw, hown, hs⟩ := hdoes.forward_mail
        have hne : P.physId w ≠ P.physId e.vcpu := fun hphys => hw (P.physId_inj hphys)
        have hitem' : writeItem P (.setReg vgicrId k.id reg val (some tag)) =
            some ⟨(tag.writer, k), tag.num⟩ := by
          rw [vgicGetInt_id hk]
          exact hitem
        rw [hs]
        have hqueue : (vgicDesk P (VgicState.sendMsg
            { s with inbox := atCpu s.inbox (P.physId e.vcpu) rest }
            (.setReg vgicrId k.id reg val (some tag)) (P.physId w))).queue (P.physId e.vcpu) =
            rest.filterMap (writeItem P) := by
          unfold vgicDesk VgicState.sendMsg
          dsimp only
          rw [atCpu_other _ _ (Ne.symm hne), atCpu_same]
        refine .sendOn ⟨(tag.writer, k), tag.num⟩ (P.physId e.vcpu) (P.physId w) hne ?_ ?_ ?_
          (fun c hc hc' => ?_) rfl rfl
        · rw [hqueue]
          exact hfront
        · intro j hj
          rw [hqueue] at hj
          refine hkeeps.alone hop hq hitem ?_ j hj
          rw [vgicGetOwnership_got] at hgot ⊢
          exact hgot
        · unfold vgicDesk VgicState.sendMsg
          dsimp only
          rw [atCpu_same, atCpu_other _ _ hne, List.filterMap_append,
            List.filterMap_cons_some hitem']
          rfl
        · unfold vgicDesk VgicState.sendMsg
          dsimp only
          rw [atCpu_other _ _ hc', atCpu_other _ _ hc]

theorem replay_next (h : ∀ k, SameSettings (s.ints k) (replay P k s.applied))
    (hok : HandlersOk P s) (hen : e.enabled P s) (k : IntKey) :
    SameSettings ((e.next P s).ints k) (replay P k (e.next P s).applied) := by
  obtain ⟨s₁, s₂, hdoes, hmoves, hend⟩ := hok.parts hen
  have hints := (VgicEvent.begin_quiet (P := P) e s).ints
  have happlied : (e.begin P s).applied = s.applied := by
    unfold VgicEvent.begin
    split <;> rfl
  have hbegin : ∀ k, SameSettings ((e.begin P s).ints k) (replay P k (e.begin P s).applied) := by
    rw [hints, happlied]
    exact h
  obtain ⟨hmail, hset⟩ := afterDeed_unwritten hmoves hend
  rw [hmail.applied]
  refine (hset.settings k).trans ?_
  generalize e.deed P s = d at hdoes
  cases d with
  | field reg k' data tag =>
    obtain ⟨hother, hsame, -⟩ := KeepsSetup.field hdoes
    rw [hdoes.field_mail.applied]
    unfold replay
    dsimp only
    by_cases hk : k' = k
    · subst hk
      rw [if_pos rfl]
      exact hsame.trans ((hbegin k').updateField P reg k' data)
    · rw [if_neg hk]
      exact (hother k (Ne.symm hk)).trans (hbegin k)
  | forward reg k' vgicrId data tag =>
    obtain ⟨w, -, -, hs⟩ := hdoes.forward_mail
    rw [hs]
    exact hbegin k
  | _ =>
    have hkeep := (KeepsSetup.does hdoes fun _ _ _ _ => VgicDeed.noConfusion).settings k
    rw [(Unwritten.does hdoes (fun _ _ _ _ => VgicDeed.noConfusion)
      fun _ _ _ _ _ => VgicDeed.noConfusion).applied]
    exact hkeep.trans (hbegin k)

end Step

/-- The numbers of the writes of a vCPU to an interrupt that took effect, with
the latest first. -/
def effects (s : VgicState) (v : Nat) (k : IntKey) : List Nat :=
  ((vgicDesk P s).done.filter fun i => decide (i.cls = (v, k))).map Item.num

instance (s : VgicState) (c v : Nat) (k : IntKey) : Decidable (NoneWaits P s c v k) :=
  inferInstanceAs (Decidable (∀ i ∈ (vgicDesk P s).queue c, i.cls ≠ (v, k)))

instance (s : VgicState) (e : VgicEvent) : Decidable (KeepsOrder P s e) := by
  obtain ⟨v, op⟩ := e
  unfold KeepsOrder
  generalize s.inbox (P.physId v) = inbox
  rcases op with _ | _ <;> rcases inbox with _ | _ <;> infer_instance

/-- vCPU 0 has SPI 32 in its list register when vCPU 1 sets its priority. -/
def prioForwarded : List VgicEvent :=
  [⟨0, .writeRoute 32 .full 0⟩, ⟨0, .writeField .isenabler 32 0 1⟩, ⟨0, .inject 32 0⟩,
    ⟨1, .writeField .ipriorityr 32 1 8⟩]

/-- The message is handled, the priority set again, and that message handled. -/
def prioHandled : List VgicEvent :=
  prioForwarded ++ [⟨0, .deliver⟩, ⟨1, .writeField .ipriorityr 32 1 16⟩, ⟨0, .deliver⟩]

/-- The guest ends SPI 32, so vCPU 0 yields it; vCPU 1 sets the priority again,
at once, and then the message is handled. -/
def prioOvertaken : List VgicEvent :=
  prioForwarded ++ [⟨0, .ackLr 0⟩, ⟨0, .deactLr 0⟩, ⟨0, .maintain⟩, ⟨0, .maintain⟩,
    ⟨1, .writeField .ipriorityr 32 1 16⟩, ⟨0, .deliver⟩]

end Bao
