import BaoHypervisor.VmCpus

/-!
# Messages to all CPUs of a VM

`vm_msg_broadcast` counts the messages that it has sent, and tests for the CPUs of the VM
with a shifted `unsigned int`.  From CPU 32 on such a shift has no defined value, where
`vm_cpu_init` has set the bit with a shifted `unsigned long`.
-/

namespace Bao

variable {W : LongWidth}

/-- A CPU of a VM that sends a message to the others, with all of them registered. -/
structure Broadcast (W : LongWidth) where
  team : VmTeam W
  vm : VmCpus W
  registered : team.Registered vm.cpus
  cpuNum : vm.cpuNum = team.cpuNum
  own : Nat
  own_mem : own ∈ team.cpus

namespace Broadcast

/-- `1U << i`; `wide` is what shifts by 32 and more give. -/
def shiftedOne (wide : Nat → BitVec 32) (i : Nat) : BitVec 32 :=
  if i < 32 then 1#32 <<< i else wide i

/-- The loop of `vm_msg_broadcast`: the CPUs that it calls `cpu_send_msg` for.  `none` is a
loop that is not at its end after `fuel` turns. -/
def vmMsgBroadcast (B : Broadcast W) (wide : Nat → BitVec 32) : Nat → Nat → Nat → Option (List Nat)
  | 0, _, n => if n < B.vm.cpuNum - 1 then none else some []
  | fuel + 1, i, n =>
      if n < B.vm.cpuNum - 1 then
        if (shiftedOne wide i).setWidth W.bits &&& B.vm.cpus ≠ 0#W.bits ∧ i ≠ B.own then
          (vmMsgBroadcast B wide fuel ((i + 1) % 2 ^ W.bits) (n + 1)).map (i :: ·)
        else vmMsgBroadcast B wide fuel ((i + 1) % 2 ^ W.bits) n
      else some []

variable (B : Broadcast W)

/-- The CPUs that the message is for. -/
def others : Finset Nat := B.team.cpus.erase B.own

/-- The call ends, and has sent one message to each other CPU of the VM and none
elsewhere. -/
def Exact (wide : Nat → BitVec 32) : Prop :=
  ∃ sent, (∃ least, ∀ fuel, least ≤ fuel → B.vmMsgBroadcast wide fuel 0 0 = some sent) ∧
    ∀ c, sent.count c = if c ∈ B.others then 1 else 0

variable {B} {wide : Nat → BitVec 32}

theorem tested_iff {i : Nat} (hi : i < 32) :
    ((shiftedOne wide i).setWidth W.bits &&& B.vm.cpus ≠ 0#W.bits ∧ i ≠ B.own) ↔ i ∈ B.others := by
  have hlt : i < W.bits := Nat.lt_of_lt_of_le hi W.int_le
  have hone : (1#32 <<< i).setWidth W.bits = 1#W.bits <<< i := by
    apply BitVec.eq_of_getLsbD_eq
    intro j hj
    rw [BitVec.getLsbD_setWidth, WordRegs.getLsbD_mask hj, decide_eq_true hj, Bool.true_and]
    by_cases hj : j < 32
    · exact WordRegs.getLsbD_mask hj
    · have hne : j ≠ i := by omega
      rw [BitVec.getLsbD_of_ge _ _ (Nat.le_of_not_lt hj), decide_eq_false hne]
  have hset : 1#W.bits <<< i &&& B.vm.cpus ≠ 0#W.bits ↔ i ∈ B.team.cpus := by
    rw [BitVec.and_comm]
    exact (Cpumap.bitGet_ne_zero hlt).trans (B.registered i)
  rw [shiftedOne, if_pos hi, hone, hset, others, Finset.mem_erase]
  exact and_comm

theorem card_others : B.others.card = B.vm.cpuNum - 1 := by
  rw [others, Finset.card_erase_of_mem B.own_mem, B.cpuNum]
  rfl

/-- The messages to the CPUs below `i` are not all if there is a CPU from `i` on. -/
theorem count_lt_iff {i : Nat} :
    Nat.count (· ∈ B.others) i < B.vm.cpuNum - 1 ↔ ∃ c ∈ B.others, i ≤ c := by
  rw [Nat.count_eq_card_filter_range, ← card_others]
  have hsub : (Finset.range i).filter (· ∈ B.others) ⊆ B.others :=
    fun c hc => (Finset.mem_filter.mp hc).2
  constructor
  · intro hlt
    by_contra hnone
    have hall : B.others ⊆ (Finset.range i).filter (· ∈ B.others) := by
      intro c hc
      have hci : ¬ i ≤ c := fun hle => hnone ⟨c, hc, hle⟩
      exact Finset.mem_filter.mpr ⟨Finset.mem_range.mpr (Nat.lt_of_not_le hci), hc⟩
    exact absurd (Finset.card_le_card hall) (Nat.not_le.mpr hlt)
  · rintro ⟨c, hc, hle⟩
    apply Finset.card_lt_card
    refine ⟨hsub, fun hall => ?_⟩
    have hlt := Finset.mem_range.mp (Finset.mem_filter.mp (hall hc)).1
    omega

/-- **From CPU `i` on**, with the messages to those below it counted, the loop sends to the
others that are left. -/
theorem vmMsgBroadcast_from (h : ∀ c ∈ B.others, c < 32) {fuel i : Nat} (hi : i ≤ 32)
    (hfuel : 32 - i ≤ fuel) :
    B.vmMsgBroadcast wide fuel i (Nat.count (· ∈ B.others) i) =
      some ((List.range' i (32 - i)).filter (· ∈ B.others)) := by
  have hwrap : 32 < 2 ^ W.bits :=
    Nat.lt_of_lt_of_le (by decide) (Nat.pow_le_pow_right Nat.two_pos W.int_le)
  induction fuel generalizing i with
  | zero =>
      obtain rfl : i = 32 := by omega
      have hdone : ¬ Nat.count (· ∈ B.others) 32 < B.vm.cpuNum - 1 := by
        rw [count_lt_iff]
        rintro ⟨c, hc, hle⟩
        exact absurd (h c hc) (Nat.not_lt.mpr hle)
      rw [vmMsgBroadcast, if_neg hdone]
      rfl
  | succ fuel ih =>
      rw [vmMsgBroadcast]
      by_cases hgo : ∃ c ∈ B.others, i ≤ c
      · obtain ⟨c, hc, hle⟩ := hgo
        have hlt : i < 32 := Nat.lt_of_le_of_lt hle (h c hc)
        have hsplit : 32 - i = 32 - (i + 1) + 1 := by omega
        have hrest := ih hlt (by omega)
        rw [if_pos (count_lt_iff.mpr ⟨c, hc, hle⟩), Nat.mod_eq_of_lt (by omega), hsplit,
          List.range'_succ, List.filter_cons]
        rw [Nat.count_succ] at hrest
        by_cases hmem : i ∈ B.others
        · rw [if_pos hmem] at hrest
          rw [if_pos ((tested_iff hlt).mpr hmem), hrest, if_pos (decide_eq_true hmem)]
          rfl
        · rw [if_neg hmem, Nat.add_zero] at hrest
          rw [if_neg (fun htest => hmem ((tested_iff hlt).mp htest)), hrest, decide_eq_false hmem]
          rfl
      · have hnone : (List.range' i (32 - i)).filter (· ∈ B.others) = [] := by
          rw [List.filter_eq_nil_iff]
          intro c hc
          rw [decide_eq_true_eq]
          exact fun hmem => hgo ⟨c, hmem, (List.mem_range'_1.mp hc).1⟩
        rw [if_neg (fun hlt => hgo (count_lt_iff.mp hlt)), hnone]

theorem sent_lt {fuel i n : Nat} {sent : List Nat}
    (h : B.vmMsgBroadcast (fun _ => 0#32) fuel i n = some sent) : ∀ c ∈ sent, c < 32 := by
  induction fuel generalizing i n sent with
  | zero =>
      rw [vmMsgBroadcast] at h
      split at h
      · cases h
      · cases h
        simp
  | succ fuel ih =>
      rw [vmMsgBroadcast] at h
      split at h
      · split at h
        · rename_i htest
          obtain ⟨rest, hrest, rfl⟩ := Option.map_eq_some_iff.mp h
          intro c hc
          rcases List.mem_cons.mp hc with rfl | hc
          · by_contra hge
            apply htest.1
            rw [shiftedOne, if_neg hge, BitVec.setWidth_zero, BitVec.zero_and]
          · exact ih hrest c hc
        · exact ih h
      · cases h
        simp

/-- **Broadcasts are exact**, whatever undefined shifts give, if and only if each other CPU
of the VM is below 32. -/
theorem vm_broadcast_exact_iff (B : Broadcast W) :
    (∀ wide, B.Exact wide) ↔ ∀ c ∈ B.others, c < 32 := by
  constructor
  · intro h c hc
    obtain ⟨sent, ⟨least, hends⟩, hcount⟩ := h fun _ => 0#32
    have hone := hcount c
    rw [if_pos hc] at hone
    have hmem : c ∈ sent := List.count_pos_iff.mp (by omega)
    exact sent_lt (hends least (Nat.le_refl _)) c hmem
  · intro h wide
    refine ⟨_, ⟨32, fun fuel hfuel => vmMsgBroadcast_from h (Nat.zero_le 32) hfuel⟩, fun c => ?_⟩
    rw [List.Nodup.count (List.Nodup.filter _ List.nodup_range')]
    have hmem : c ∈ (List.range' 0 (32 - 0)).filter (· ∈ B.others) ↔ c ∈ B.others := by
      rw [List.mem_filter, List.mem_range'_1, decide_eq_true_eq]
      exact ⟨fun hc => hc.2, fun hc => ⟨⟨Nat.zero_le c, by simpa using h c hc⟩, hc⟩⟩
    simp only [hmem]

theorem vmMsgBroadcast_mono {fuel fuel' i n : Nat} {sent : List Nat} (hle : fuel ≤ fuel')
    (h : B.vmMsgBroadcast wide fuel i n = some sent) :
    B.vmMsgBroadcast wide fuel' i n = some sent := by
  induction fuel generalizing fuel' i n sent with
  | zero =>
      rw [vmMsgBroadcast] at h
      split at h
      · cases h
      · rename_i hdone
        cases fuel' with
        | zero => rw [vmMsgBroadcast, if_neg hdone, h]
        | succ fuel' => rw [vmMsgBroadcast, if_neg hdone, h]
  | succ fuel ih =>
      obtain ⟨fuel', rfl⟩ := Nat.exists_eq_add_of_le' (Nat.le_trans (Nat.le_add_left 1 fuel) hle)
      have hle' : fuel ≤ fuel' := Nat.le_of_succ_le_succ hle
      rw [vmMsgBroadcast] at h ⊢
      split
      · rename_i hgo
        rw [if_pos hgo] at h
        split
        · rename_i htest
          rw [if_pos htest] at h
          obtain ⟨rest, hrest, rfl⟩ := Option.map_eq_some_iff.mp h
          rw [ih hle' hrest, Option.map_some]
        · rename_i htest
          rw [if_neg htest] at h
          exact ih hle' h
      · rename_i hdone
        rwa [if_neg hdone] at h

/-- CPU 0 of a VM that has CPU 40 besides. -/
def farPair : Broadcast LongWidth.w64 where
  team := ⟨{0, 40}, by decide⟩
  vm := ⟨2, 0x10000000001#64, fun _ => ⟨0, 0⟩⟩
  registered := by
    have hbits : ∀ c : Fin 64, (0x10000000001#64).getLsbD c = true ↔ c.val = 0 ∨ c.val = 40 := by
      decide
    intro c
    rw [Finset.mem_insert, Finset.mem_singleton]
    by_cases hc : c < 64
    · exact hbits ⟨c, hc⟩
    · rw [BitVec.getLsbD_of_ge _ _ (Nat.le_of_not_lt hc)]
      have hno : ¬ (c = 0 ∨ c = 40) := by omega
      exact iff_of_false Bool.false_ne_true hno
  cpuNum := rfl
  own := 0
  own_mem := by decide

/-- Where a shift takes its amount modulo 32, CPU 32 gets the message for CPU 40. -/
theorem vm_broadcast_misses : ¬ farPair.Exact fun i => 1#32 <<< (i % 32) := by
  rintro ⟨sent, ⟨least, hends⟩, hcount⟩
  have hrun : farPair.vmMsgBroadcast (fun i => 1#32 <<< (i % 32)) 33 0 0 = some [32] := by
    decide +kernel
  have hsent := vmMsgBroadcast_mono (Nat.le_add_left 33 least) hrun
  obtain rfl := Option.some.inj ((hends _ (Nat.le_add_right least 33)).symm.trans hsent)
  exact absurd (hcount 32) (by decide)

end Broadcast

end Bao
