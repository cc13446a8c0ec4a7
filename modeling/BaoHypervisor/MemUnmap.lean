import BaoHypervisor.PageTable

/-!
# Unmapping pages

`mem_unmap` of the MMU build of `mem.c`.  Its loop walks the tables with one level
variable, which goes down at a table and up by one at the end of a table; an
access to an entry that does not exist ends it, on RISC-V in the `ERROR` for a
`pte` that is NULL.
-/

namespace Bao

open RadixTable

variable {F : Type} {M : Machine} (A : PtAddrSpace M F) (canAlloc : Nat → Bool)

/-- The loop of `mem_unmap`: the tables, `lvl` and `vaddr`. -/
structure UnmapState (F : Type) where
  s : PtState F
  lvl : Nat
  vaddr : Nat

/-- The entry is cut: it does not lie within what is left of the range. -/
def unmapCuts (top lvl vaddr : Nat) : Bool :=
  let lvlsz := A.dscr.size lvl
  let vpageBase := vaddr / lvlsz * lvlsz
  decide (vpageBase < vaddr) || decide (top < (vpageBase + lvlsz) % M.wordCount)

/-- `*pte = 0`, after the pages of the entry have been freed. -/
def unmapClear (freePpages : Bool) (s : PtState F) (lvl i : Nat) : PtState F :=
  { s with
    pte := put s.pte lvl i (.hole false)
    freed := if freePpages then (pteAddr (s.pte lvl i), A.dscr.size lvl / M.pageSize) :: s.freed
      else s.freed }

/-- The inner loop of `mem_unmap` over the `left` entries of the table from index
`i` on; at the end of the table `lvl` goes down by one. -/
def unmapRun (freePpages : Bool) (top lvl : Nat) :
    Nat → PtState F → Nat → Nat → Option (UnmapState F)
  | 0, s, _, vaddr => some ⟨s, (lvl + (M.wordCount - 1)) % M.wordCount, vaddr⟩
  | left + 1, s, i, vaddr =>
      if top ≤ vaddr then some ⟨s, lvl, vaddr⟩
      else if pteTable (s.pte lvl i) then some ⟨s, lvl, vaddr⟩
      else if unmapCuts A top lvl vaddr then
        match memExpandPte A canAlloc s vaddr lvl with
        | none => none
        | some s1 => some ⟨s1, lvl + 1, vaddr⟩
      else
        unmapRun freePpages top lvl left (unmapClear A freePpages s lvl i) (i + 1)
          ((vaddr + A.dscr.size lvl) % M.wordCount)

/-- One turn of the loop of `mem_unmap`; `none` is a `pte` that does not exist. -/
def unmapTurn (freePpages : Bool) (top : Nat) (u : UnmapState F) : Option (UnmapState F) :=
  match ptGetPte A u.s.pte u.lvl u.vaddr with
  | none => none
  | some i =>
      match u.s.pte u.lvl i with
      | .hole _ => some { u with vaddr := (u.vaddr + A.dscr.size u.lvl) % M.wordCount }
      | .table => some { u with lvl := u.lvl + 1 }
      | .leaf _ _ =>
          unmapRun A canAlloc freePpages top u.lvl (A.dscr.fan u.lvl - i % A.dscr.fan u.lvl)
            u.s i u.vaddr

/-- How far the loop has come after some turns. -/
inductive UnmapOutcome (F : Type) where
  | running
  | fault
  | done (s : PtState F)

/-- The loop of `mem_unmap` for at most `fuel` turns. -/
def unmapLoop (freePpages : Bool) (top : Nat) : Nat → UnmapState F → UnmapOutcome F
  | 0, u => if u.vaddr < top then .running else .done u.s
  | fuel + 1, u =>
      if u.vaddr < top then
        match unmapTurn A canAlloc freePpages top u with
        | none => .fault
        | some u1 => unmapLoop freePpages top fuel u1
      else .done u.s

/-- `mem_unmap`, for at most `fuel` turns of its loop. -/
def memUnmap (s : PtState F) (vaddr numPages : Nat) (freePpages : Bool) (fuel : Nat) :
    UnmapOutcome F :=
  match memFindSec A.sections vaddr with
  | none => .fault
  | some _ =>
      unmapLoop A canAlloc freePpages ((vaddr + numPages * M.pageSize) % M.wordCount) fuel
        ⟨s, 0, vaddr⟩

/-! ## The exact result -/

/-- `mem_unmap` comes to an end without an access to a table that does not exist;
then no address of the range translates and every other one does as before. -/
def UnmapsExactly (s : PtState F) (vaddr numPages : Nat) (freePpages : Bool) : Prop :=
  ∃ fuel s', memUnmap A canAlloc s vaddr numPages freePpages fuel = .done s' ∧
    (∀ va, vaddr ≤ va → va < vaddr + numPages * M.pageSize → memTranslates A s'.pte va = none) ∧
    ∀ va, va < M.wordCount → va < vaddr ∨ vaddr + numPages * M.pageSize ≤ va →
      memTranslates A s'.pte va = memTranslates A s.pte va

/-- Where the inner loop stops at an entry that is cut, there is a page for the new
table, and the entry has the flags that it gets there. -/
def RunFine (t : Table F) (ok : Bool) (top lvl : Nat) : Nat → Nat → Nat → Prop
  | 0, _, _ => True
  | left + 1, i, vaddr =>
      if top ≤ vaddr then True
      else if pteTable (t lvl i) then True
      else if unmapCuts A top lvl vaddr then
        ok = true ∧ ∀ base flags, t lvl i = .leaf base flags → flags = A.flags
      else RunFine t ok top lvl left (i + 1) ((vaddr + A.dscr.size lvl) % M.wordCount)

/-- A turn goes well: the entry exists; beyond a hole, what is stepped over does not
translate; the entries cleared are those of addresses that the hardware
translates, and no entry loses its flags. -/
def TurnFine (top : Nat) (u : UnmapState F) : Prop :=
  match ptGetPte A u.s.pte u.lvl u.vaddr with
  | none => False
  | some i =>
      match u.s.pte u.lvl i with
      | .hole _ => top + A.dscr.size u.lvl ≤ M.wordCount ∧
          ∀ va, (u.vaddr / A.dscr.size u.lvl + 1) * A.dscr.size u.lvl ≤ va →
            va < u.vaddr + A.dscr.size u.lvl → va < top → memTranslates A u.s.pte va = none
      | .table => True
      | .leaf _ _ => top + A.dscr.size u.lvl ≤ M.wordCount ∧
          u.vaddr / 2 ^ A.dscr.wdt 0 = A.vaHigh ∧
          RunFine A u.s.pte (canAlloc u.s.allocs) top u.lvl
            (A.dscr.fan u.lvl - i % A.dscr.fan u.lvl) i u.vaddr

/-- The states of the loop. -/
inductive UnmapVisits (freePpages : Bool) (top : Nat) (u : UnmapState F) : UnmapState F → Prop
  | start : UnmapVisits freePpages top u u
  | turn {w w' : UnmapState F} (h : UnmapVisits freePpages top u w) (hlt : w.vaddr < top)
      (hturn : unmapTurn A canAlloc freePpages top w = some w') :
      UnmapVisits freePpages top u w'

/-- All turns go well, and a range up to the end of the address space, which is not
unmapped at all, does not translate. -/
def UnmapFine (s : PtState F) (vaddr numPages : Nat) (freePpages : Bool) : Prop :=
  (vaddr + numPages * M.pageSize = M.wordCount →
    ∀ va, vaddr ≤ va → va < M.wordCount → memTranslates A s.pte va = none) ∧
  ∀ w, UnmapVisits A canAlloc freePpages ((vaddr + numPages * M.pageSize) % M.wordCount)
      ⟨s, 0, vaddr⟩ w → w.vaddr < (vaddr + numPages * M.pageSize) % M.wordCount →
    TurnFine A canAlloc ((vaddr + numPages * M.pageSize) % M.wordCount) w

/-- The range lies in what the hardware translates, with room above it for one
entry of the root table, as the hypervisor's own sections do. -/
def InsideInput (vaddr numPages : Nat) : Prop :=
  A.vaHigh * 2 ^ A.dscr.wdt 0 ≤ vaddr ∧
  vaddr + numPages * M.pageSize ≤ (A.vaHigh + 1) * 2 ^ A.dscr.wdt 0 ∧
  vaddr + numPages * M.pageSize + A.dscr.size 0 ≤ M.wordCount

end Bao
