import BaoHypervisor.PrintInt

/-!
# Console printing

`vsnprintk` of `printk.c` and the loop of `console_printk` that calls it.  A call stops in
the middle of the format when the next conversion does not fit, and the next call goes on
there with an empty buffer.  What the calls write together is compared with the format
taken apart into pieces, which needs no buffer.
-/

namespace Bao

/-- `is_digit`. -/
def isDigit (c : Char) : Bool := '0' ≤ c && c ≤ '9'

/-- Flags, width and precision are skipped. -/
def isSkipped (c : Char) : Bool :=
  isDigit c || c == '-' || c == '+' || c == ' ' || c == '#' || c == '.'

def skipFlags : List Char → List Char
  | [] => []
  | c :: fmt => if isSkipped c then skipFlags fmt else c :: fmt

/-- The length of a conversion; `ll` is taken as `l`. -/
def skipLength : List Char → Nat × List Char
  | 'l' :: 'l' :: fmt => (fLong, fmt)
  | 'l' :: fmt => (fLong, fmt)
  | 'z' :: fmt => (fLong, fmt)
  | fmt => (0, fmt)

/-- `prints`. -/
def prints (buf : Option (List Char)) : List Char → Nat × Option (List Char)
  | [] => (0, buf)
  | c :: str =>
      let (charCount, buf) := prints (printc buf c) str
      (charCount + 1, buf)

/-- `printsn`. -/
def printsn (buf : Option (List Char)) : List Char → Nat → Nat × Option (List Char)
  | c :: str, max + 1 =>
      let (charCount, buf) := printsn (printc buf c) str max
      (charCount + 1, buf)
  | _, _ => (0, buf)

/-- The variables of `vsnprintk`: what is written to `buf`, and what is left of it, of the
format and of the arguments. -/
structure PrintState (W : LongWidth) where
  buf : Option (List Char)
  bufLeft : Nat
  fmt : List Char
  args : List (VaArg W)

/-- `arg_char_count` and `consume` after a conversion, with the buffer and the arguments. -/
structure Converted (W : LongWidth) where
  argCharCount : Nat
  consume : Bool
  buf : Option (List Char)
  args : List (VaArg W)

variable {W : LongWidth}

/-- The conversions of integers. -/
def convertInt (flags : Nat) (s : PrintState W) : Option (Converted W) :=
  (vprintd none flags s.args).bind fun (argCharCount, _, _) =>
    if argCharCount ≤ s.bufLeft then
      (vprintd s.buf flags s.args).map fun (_, buf, args) => ⟨argCharCount, true, buf, args⟩
    else some ⟨argCharCount, true, s.buf, s.args⟩

/-- The conversion `s`. -/
def convertStr (bufSize : Nat) (s : PrintState W) : Option (Converted W) :=
  match s.args with
  | .str str :: args =>
      let argCharCount := (prints none str).1
      if argCharCount ≤ s.bufLeft then
        some ⟨argCharCount, true, (prints s.buf str).2, args⟩
      else if s.bufLeft = bufSize then
        let (argCharCount, buf) := printsn s.buf str s.bufLeft
        some ⟨argCharCount, true, buf, args⟩
      else some ⟨argCharCount, true, s.buf, s.args⟩
  | _ => none

/-- The conversion `c`. -/
def convertChar (s : PrintState W) : Option (Converted W) :=
  if 1 ≤ s.bufLeft then
    match s.args with
    | .int v :: args => some ⟨1, true, printc s.buf (Char.ofNat (v.toNat % 2 ^ 8)), args⟩
    | _ => none
  else some ⟨1, true, s.buf, s.args⟩

/-- The switch over the conversion. -/
def convert (bufSize flags : Nat) (s : PrintState W) : Option (Converted W) :=
  match s.fmt.head? with
  | some 'x' => convertInt (flags ||| fBase16 ||| fUnsigned) s
  | some 'X' => convertInt (flags ||| fBase16 ||| fUnsigned) s
  | some 'u' => convertInt (flags ||| fUnsigned) s
  | some 'd' => convertInt flags s
  | some 'i' => convertInt flags s
  | some 's' => convertStr bufSize s
  | some 'c' => convertChar s
  | some '%' =>
      some ⟨1, true, if 1 ≤ s.bufLeft then printc s.buf '%' else s.buf, s.args⟩
  | _ => some ⟨0, false, s.buf, s.args⟩

/-- The end of a turn: the next turn, or out of the loop. -/
inductive Turn (W : LongWidth) where
  | next (s : PrintState W)
  | leave (s : PrintState W)

/-- A turn of the loop of `vsnprintk` at the character `c`, with `fmt` behind it. -/
def printTurn (bufSize : Nat) (c : Char) (fmt : List Char) (s : PrintState W) :
    Option (Turn W) :=
  if c ≠ '%' then some (.next ⟨printc s.buf c, s.bufLeft - 1, fmt, s.args⟩)
  else
    let (flags, fmtIt) := skipLength (skipFlags fmt)
    (convert bufSize flags { s with fmt := fmtIt }).map fun r =>
      if s.bufLeft < r.argCharCount then .leave ⟨r.buf, s.bufLeft, c :: fmt, r.args⟩
      else
        .next ⟨r.buf, s.bufLeft - r.argCharCount,
          if r.consume && !fmtIt.isEmpty then fmtIt.tail else fmtIt, r.args⟩

/-- The loop of `vsnprintk`; `none` is a loop that is not at its end after `fuel` turns, or
an argument that does not match. -/
def vsnprintkLoop (bufSize : Nat) : Nat → PrintState W → Option (PrintState W)
  | 0, s => if s.fmt = [] ∨ s.bufLeft = 0 then some s else none
  | fuel + 1, s =>
      match s.fmt with
      | [] => some s
      | c :: fmt =>
          if 0 < s.bufLeft then
            match printTurn bufSize c fmt s with
            | none => none
            | some (.leave s) => some s
            | some (.next s) => vsnprintkLoop bufSize fuel s
          else some s

/-- `vsnprintk`: the number of characters, the buffer, the format from the first character
that was not printed, and the arguments that are left. -/
def vsnprintk (bufSize fuel : Nat) (fmt : List Char) (args : List (VaArg W)) :
    Option (Nat × List Char × List Char × List (VaArg W)) :=
  (vsnprintkLoop bufSize fuel ⟨some [], bufSize, fmt, args⟩).bind fun s =>
    s.buf.map fun buf => (bufSize - s.bufLeft, buf, s.fmt, s.args)

/-- `console_write`: what the UART gets. -/
def consoleWrite (buf : List Char) (n : Nat) : List Char :=
  (buf.take n).flatMap fun c => if c = '\n' then ['\r', c] else [c]

/-- A call of `vsnprintk`: the number it returned and the buffer. -/
structure Chunk where
  charsWriten : Nat
  buf : List Char

/-- The loop of `console_printk`, with a buffer of `bufLen` characters: its chunks, and the
arguments that are left. -/
def consolePrintk (bufLen : Nat) : Nat → List Char → List (VaArg W) →
    Option (List Chunk × List (VaArg W))
  | _, [], args => some ([], args)
  | 0, _ :: _, _ => none
  | fuel + 1, c :: fmt, args =>
      (vsnprintk bufLen (fuel + 1) (c :: fmt) args).bind fun (charsWriten, buf, fmtIt, args) =>
        (consolePrintk bufLen fuel fmtIt args).map fun (chunks, args) =>
          (⟨charsWriten, buf⟩ :: chunks, args)

/-! ## The format in pieces -/

/-- A piece of a format: a character that is printed, a conversion that takes an argument,
or one that is not known. -/
inductive Piece where
  | text (c : Char)
  | int (flags : Nat)
  | str
  | char
  | unknown
deriving DecidableEq

/-- The conversion at the front of the format, and the format behind it.  An unknown
conversion is left in the format, as text. -/
def Piece.ofConversion (flags : Nat) : List Char → Piece × List Char
  | 'x' :: fmt => (.int (flags ||| fBase16 ||| fUnsigned), fmt)
  | 'X' :: fmt => (.int (flags ||| fBase16 ||| fUnsigned), fmt)
  | 'u' :: fmt => (.int (flags ||| fUnsigned), fmt)
  | 'd' :: fmt => (.int flags, fmt)
  | 'i' :: fmt => (.int flags, fmt)
  | 's' :: fmt => (.str, fmt)
  | 'c' :: fmt => (.char, fmt)
  | '%' :: fmt => (.text '%', fmt)
  | fmt => (.unknown, fmt)

/-- The first piece of a format that begins with `c`. -/
def Piece.first (c : Char) (fmt : List Char) : Piece × List Char :=
  if c ≠ '%' then (.text c, fmt)
  else Piece.ofConversion (skipLength (skipFlags fmt)).1 (skipLength (skipFlags fmt)).2

/-- The number of arguments that the piece takes. -/
def Piece.argCount : Piece → Nat
  | .text _ => 0
  | .int _ => 1
  | .str => 1
  | .char => 1
  | .unknown => 0

/-- The arguments begin with what the piece takes. -/
def Piece.Takes : Piece → List (VaArg W) → Prop
  | .int flags, arg :: _ => arg.Matches flags
  | .str, .str _ :: _ => True
  | .char, .int _ :: _ => True
  | .text _, _ => True
  | .unknown, _ => True
  | _, _ => False

/-- The text of a piece. -/
def Piece.output : Piece → List (VaArg W) → List Char
  | .int flags, arg :: _ => intText (vprintdBase flags) (arg.value flags)
  | .str, .str s :: _ => s
  | .char, .int v :: _ => [Char.ofNat (v.toNat % 2 ^ 8)]
  | .text c, _ => [c]
  | _, _ => []

section Output

variable {args : List (VaArg W)}

@[simp] theorem Piece.output_int (flags : Nat) (arg : VaArg W) :
    (Piece.int flags).output (arg :: args) = intText (vprintdBase flags) (arg.value flags) := rfl

@[simp] theorem Piece.output_str (s : List Char) : Piece.str.output (.str s :: args) = s := rfl

@[simp] theorem Piece.output_char (v : BitVec 32) :
    Piece.char.output (.int v :: args) = [Char.ofNat (v.toNat % 2 ^ 8)] := rfl

@[simp] theorem Piece.output_text (c : Char) : (Piece.text c).output args = [c] := rfl

@[simp] theorem Piece.output_unknown : Piece.unknown.output args = [] := rfl

end Output

theorem length_skipFlags (fmt : List Char) : (skipFlags fmt).length ≤ fmt.length := by
  induction fmt with
  | nil => exact Nat.le_refl 0
  | cons c fmt ih =>
      rw [skipFlags]
      split
      · exact Nat.le_succ_of_le ih
      · exact Nat.le_refl _

theorem length_skipLength (fmt : List Char) : (skipLength fmt).2.length ≤ fmt.length := by
  unfold skipLength
  split
  · exact Nat.le_add_right _ 2
  · exact Nat.le_succ _
  · exact Nat.le_succ _
  · exact Nat.le_refl _

theorem Piece.length_ofConversion (flags : Nat) (fmt : List Char) :
    (Piece.ofConversion flags fmt).2.length ≤ fmt.length := by
  unfold Piece.ofConversion
  split
  all_goals first | exact Nat.le_succ _ | exact Nat.le_refl _

theorem Piece.length_first (c : Char) (fmt : List Char) :
    (Piece.first c fmt).2.length ≤ fmt.length := by
  unfold Piece.first
  split
  · exact Nat.le_refl _
  · exact Nat.le_trans (Piece.length_ofConversion _ _)
      (Nat.le_trans (length_skipLength _) (length_skipFlags fmt))

/-- The pieces of a format. -/
def pieces : List Char → List Piece
  | [] => []
  | c :: fmt => (Piece.first c fmt).1 :: pieces (Piece.first c fmt).2
termination_by fmt => fmt.length
decreasing_by exact Nat.lt_succ_of_le (Piece.length_first c fmt)

/-- The arguments match the pieces; further ones are not looked at. -/
def Matching : List Piece → List (VaArg W) → Prop
  | [], _ => True
  | p :: ps, args => p.Takes args ∧ Matching ps (args.drop p.argCount)

/-- **Plain formatting**: the texts of all pieces, one behind the other. -/
def formatted : List Piece → List (VaArg W) → List Char
  | [], _ => []
  | p :: ps, args => p.output args ++ formatted ps (args.drop p.argCount)

/-- The number of arguments that the pieces take. -/
def argCount (ps : List Piece) : Nat := (ps.map Piece.argCount).sum

/-- A string argument cut to the size of the buffer. -/
def VaArg.cut (bufSize : Nat) : VaArg W → VaArg W
  | .str s => .str (s.take bufSize)
  | arg => arg

/-- The buffer takes the longest integer. -/
def FitsInts (W : LongWidth) (bufSize : Nat) : Prop :=
  ∀ flags (arg : VaArg W), arg.Matches flags →
    (intText (vprintdBase flags) (arg.value flags)).length ≤ bufSize

/-- The state after a piece that printed `text`, with `fmt` behind it. -/
def PrintState.printed (s : PrintState W) (p : Piece × List Char) (text : List Char) :
    PrintState W :=
  ⟨s.buf.map (· ++ text), s.bufLeft - text.length, p.2, s.args.drop p.1.argCount⟩

/-! ## One conversion -/

variable {bufSize flags fuel : Nat} {s s' : PrintState W} {c : Char} {fmt : List Char}
  {args : List (VaArg W)} {p : Piece} {ps qs : List Piece}

theorem prints_eq (buf : Option (List Char)) (str : List Char) :
    prints buf str = (str.length, buf.map (· ++ str)) := by
  induction str generalizing buf with
  | nil => simp [prints]
  | cons c str ih => rw [prints, ih, printc_append, List.length_cons]

theorem printsn_eq (buf : Option (List Char)) (str : List Char) (max : Nat) :
    printsn buf str max = ((str.take max).length, buf.map (· ++ str.take max)) := by
  induction str generalizing buf max with
  | nil => cases max <;> simp [printsn]
  | cons c str ih =>
      cases max with
      | zero => simp [printsn]
      | succ max => rw [printsn, ih, printc_append, List.take_succ_cons, List.length_cons]

/-- What the switch does with the front of the format, and the piece that it is. -/
inductive Switch (bufSize flags : Nat) (s : PrintState W) :
    Piece × List Char → Option (Converted W) → Prop where
  | int (f : Nat) (hfmt : s.fmt ≠ []) :
      Switch bufSize flags s (.int f, s.fmt.tail) (convertInt f s)
  | str (hfmt : s.fmt ≠ []) : Switch bufSize flags s (.str, s.fmt.tail) (convertStr bufSize s)
  | char (hfmt : s.fmt ≠ []) : Switch bufSize flags s (.char, s.fmt.tail) (convertChar s)
  | percent (hfmt : s.fmt ≠ []) : Switch bufSize flags s (.text '%', s.fmt.tail)
      (some ⟨1, true, if 1 ≤ s.bufLeft then printc s.buf '%' else s.buf, s.args⟩)
  | unknown : Switch bufSize flags s (.unknown, s.fmt) (some ⟨0, false, s.buf, s.args⟩)

theorem switch (bufSize flags : Nat) (s : PrintState W) :
    Switch bufSize flags s (Piece.ofConversion flags s.fmt) (convert bufSize flags s) := by
  obtain ⟨buf, bufLeft, fmt, args⟩ := s
  dsimp only
  unfold Piece.ofConversion
  split
  · exact .int (s := ⟨buf, bufLeft, _, args⟩) _ (List.cons_ne_nil _ _)
  · exact .int (s := ⟨buf, bufLeft, _, args⟩) _ (List.cons_ne_nil _ _)
  · exact .int (s := ⟨buf, bufLeft, _, args⟩) _ (List.cons_ne_nil _ _)
  · exact .int (s := ⟨buf, bufLeft, _, args⟩) _ (List.cons_ne_nil _ _)
  · exact .int (s := ⟨buf, bufLeft, _, args⟩) _ (List.cons_ne_nil _ _)
  · exact .str (s := ⟨buf, bufLeft, _, args⟩) (List.cons_ne_nil _ _)
  · exact .char (s := ⟨buf, bufLeft, _, args⟩) (List.cons_ne_nil _ _)
  · exact .percent (s := ⟨buf, bufLeft, _, args⟩) (List.cons_ne_nil _ _)
  · next hx hX hu hd hi hs hc hp =>
    have hdefault : convert bufSize flags ⟨buf, bufLeft, fmt, args⟩ =
        some ⟨0, false, buf, args⟩ := by
      cases fmt with
      | nil => rfl
      | cons c fmt =>
          unfold convert
          split
          · next hfront => exact absurd (congrArg (· :: fmt) (Option.some.inj hfront)) (hx fmt)
          · next hfront => exact absurd (congrArg (· :: fmt) (Option.some.inj hfront)) (hX fmt)
          · next hfront => exact absurd (congrArg (· :: fmt) (Option.some.inj hfront)) (hu fmt)
          · next hfront => exact absurd (congrArg (· :: fmt) (Option.some.inj hfront)) (hd fmt)
          · next hfront => exact absurd (congrArg (· :: fmt) (Option.some.inj hfront)) (hi fmt)
          · next hfront => exact absurd (congrArg (· :: fmt) (Option.some.inj hfront)) (hs fmt)
          · next hfront => exact absurd (congrArg (· :: fmt) (Option.some.inj hfront)) (hc fmt)
          · next hfront => exact absurd (congrArg (· :: fmt) (Option.some.inj hfront)) (hp fmt)
          · rfl
    rw [hdefault]
    exact .unknown

theorem convertInt_eq {arg : VaArg W} {rest : List (VaArg W)} (h : arg.Matches flags)
    (hargs : s.args = arg :: rest) :
    convertInt flags s =
      if (intText (vprintdBase flags) (arg.value flags)).length ≤ s.bufLeft then
        some ⟨(intText (vprintdBase flags) (arg.value flags)).length, true,
          s.buf.map (· ++ intText (vprintdBase flags) (arg.value flags)), rest⟩
      else some ⟨(intText (vprintdBase flags) (arg.value flags)).length, true, s.buf, s.args⟩ := by
  rw [convertInt, hargs, (vprintd_eq h rest none).2, (vprintd_eq h rest s.buf).2]
  rfl

/-- **One turn**, for the piece at the front of the format: its text is printed if it fits,
a string is cut at the end of a buffer that was empty, and anything else is left for the
next call. -/
theorem printTurn_eq (hleft : 0 < s.bufLeft) (htakes : (Piece.first c fmt).1.Takes s.args) :
    printTurn bufSize c fmt s = some (
      if ((Piece.first c fmt).1.output s.args).length ≤ s.bufLeft then
        .next (s.printed (Piece.first c fmt) ((Piece.first c fmt).1.output s.args))
      else if (Piece.first c fmt).1 = .str ∧ s.bufLeft = bufSize then
        .next (s.printed (Piece.first c fmt)
          (((Piece.first c fmt).1.output s.args).take s.bufLeft))
      else .leave ⟨s.buf, s.bufLeft, c :: fmt, s.args⟩) := by
  unfold printTurn Piece.first at *
  by_cases hc : c ≠ '%'
  · rw [if_pos hc] at htakes ⊢
    have hone : ((Piece.text c).output s.args).length ≤ s.bufLeft := hleft
    rw [if_pos hc]
    dsimp only
    rw [if_pos hone]
    rfl
  · rw [if_neg hc] at htakes ⊢
    rw [if_neg hc]
    generalize skipLength (skipFlags fmt) = r at htakes ⊢
    obtain ⟨flags, fmtIt⟩ := r
    dsimp only at htakes ⊢
    have hswitch := switch bufSize flags { s with fmt := fmtIt }
    generalize Piece.ofConversion flags fmtIt = p at hswitch htakes ⊢
    generalize convert bufSize flags { s with fmt := fmtIt } = r at hswitch ⊢
    have htail : fmtIt ≠ [] → (true && !fmtIt.isEmpty) = true := by
      intro hne
      simpa using hne
    cases hswitch with
    | int f hfmt =>
        obtain ⟨buf, bufLeft, fmt', args⟩ := s
        cases args with
        | nil => exact htakes.elim
        | cons arg rest =>
            rw [convertInt_eq htakes rfl]
            dsimp only [Piece.output_int]
            by_cases hfits : (intText (vprintdBase f) (arg.value f)).length ≤ bufLeft
            · simp only [hfits, ↓reduceIte, Option.map_some]
              rw [if_neg (Nat.not_lt.mpr hfits), if_pos (htail hfmt)]
              rfl
            · simp only [hfits, ↓reduceIte, Option.map_some]
              rw [if_pos (Nat.lt_of_not_le hfits), if_neg (by simp)]
    | str hfmt =>
        obtain ⟨buf, bufLeft, fmt', args⟩ := s
        match args, htakes with
        | .str str :: rest, _ =>
            rw [convertStr]
            dsimp only [Piece.output_str]
            rw [prints_eq, prints_eq, printsn_eq]
            dsimp only
            by_cases hfits : str.length ≤ bufLeft
            · simp only [hfits, ↓reduceIte, Option.map_some]
              rw [if_neg (Nat.not_lt.mpr hfits), if_pos (htail hfmt)]
              rfl
            · simp only [hfits, ↓reduceIte]
              by_cases hfull : bufLeft = bufSize
              · simp only [hfull, and_self, ↓reduceIte, Option.map_some]
                have hlen : ¬ bufSize < (str.take bufSize).length := by
                  rw [List.length_take]
                  omega
                rw [if_neg hlen, if_pos (htail hfmt)]
                rfl
              · simp only [hfull, and_false, ↓reduceIte, Option.map_some]
                rw [if_pos (Nat.lt_of_not_le hfits)]
    | char hfmt =>
        obtain ⟨buf, bufLeft, fmt', args⟩ := s
        match args, htakes with
        | .int v :: rest, _ =>
            have hone : 1 ≤ bufLeft := hleft
            simp only [convertChar, Piece.output_char, List.length_singleton, hone, ↓reduceIte,
              Option.map_some]
            rw [if_neg (Nat.not_lt.mpr hone), if_pos (htail hfmt)]
            rfl
    | percent hfmt =>
        have hone : 1 ≤ s.bufLeft := hleft
        simp only [Piece.output_text, List.length_singleton, hone, ↓reduceIte, Option.map_some]
        rw [if_neg (Nat.not_lt.mpr hone), if_pos (htail hfmt)]
        rfl
    | unknown =>
        have hnone : (Piece.unknown.output s.args).length ≤ s.bufLeft := Nat.zero_le _
        rw [if_pos hnone, Option.map_some]
        simp [PrintState.printed, Piece.argCount]

/-! ## One call -/

theorem argCount_append : argCount (ps ++ qs) = argCount ps + argCount qs := by
  rw [argCount, List.map_append, List.sum_append]
  rfl

theorem matching_append : Matching (ps ++ qs) args ↔
    Matching ps args ∧ Matching qs (args.drop (argCount ps)) := by
  induction ps generalizing args with
  | nil => simp [Matching, argCount]
  | cons p ps ih =>
      have hcount : argCount (p :: ps) = p.argCount + argCount ps := rfl
      rw [List.cons_append, Matching, Matching, ih, List.drop_drop, hcount, and_assoc]

theorem formatted_append :
    formatted (ps ++ qs) args = formatted ps args ++ formatted qs (args.drop (argCount ps)) := by
  induction ps generalizing args with
  | nil => simp [formatted, argCount]
  | cons p ps ih =>
      have hcount : argCount (p :: ps) = p.argCount + argCount ps := rfl
      rw [List.cons_append, formatted, formatted, ih, List.drop_drop, hcount, List.append_assoc]

theorem output_cut (h : p.Takes args) : p.output (args.map (VaArg.cut bufSize)) =
    if p = .str then (p.output args).take bufSize else p.output args := by
  cases p with
  | text c => simp
  | unknown => simp
  | int flags =>
      match args, h with
      | .int v :: rest, _ => simp [VaArg.cut]
      | .long v :: rest, _ => simp [VaArg.cut]
      | .str s :: rest, h => exact h.elim
  | str =>
      match args, h with
      | .str s :: rest, _ => simp [VaArg.cut]
  | char =>
      match args, h with
      | .int v :: rest, _ => simp [VaArg.cut]

/-- What is printed between two states of a call, with each string cut to the size of the
buffer. -/
structure Prints (bufSize : Nat) (ps : List Piece) (s s' : PrintState W) : Prop where
  fmt : pieces s.fmt = ps ++ pieces s'.fmt
  buf : s'.buf = s.buf.map (· ++ formatted ps (s.args.map (VaArg.cut bufSize)))
  left : s'.bufLeft + (formatted ps (s.args.map (VaArg.cut bufSize))).length = s.bufLeft
  args : s'.args = s.args.drop (argCount ps)

theorem Prints.refl (s : PrintState W) : Prints bufSize [] s s where
  fmt := rfl
  buf := by cases h : s.buf <;> simp [formatted]
  left := rfl
  args := rfl

theorem Prints.trans {s'' : PrintState W} (h : Prints bufSize ps s s')
    (h' : Prints bufSize qs s' s'') : Prints bufSize (ps ++ qs) s s'' where
  fmt := by rw [h.fmt, h'.fmt, List.append_assoc]
  buf := by
    rw [h'.buf, h.buf, h.args, formatted_append, List.map_drop, Option.map_map]
    congr 1
    funext text
    exact List.append_assoc ..
  left := by
    rw [formatted_append, List.length_append, ← h.left, ← h'.left, h.args, List.map_drop]
    omega
  args := by rw [h'.args, h.args, List.drop_drop, argCount_append]

/-- **A turn** prints a piece, or leaves the loop without a change, which it does not with
an empty buffer. -/
theorem printTurn_cases (hints : FitsInts W bufSize) (hleft : 0 < s.bufLeft)
    (hle : s.bufLeft ≤ bufSize) (hfmt : s.fmt = c :: fmt)
    (htakes : (Piece.first c fmt).1.Takes s.args) :
    (∃ s', printTurn bufSize c fmt s = some (.next s') ∧
      Prints bufSize [(Piece.first c fmt).1] s s' ∧ s'.fmt = (Piece.first c fmt).2) ∨
    (printTurn bufSize c fmt s = some (.leave s) ∧ s.bufLeft ≠ bufSize) := by
  rw [printTurn_eq hleft htakes]
  have hcut : (Piece.first c fmt).1.output (s.args.map (VaArg.cut bufSize)) =
      if (Piece.first c fmt).1 = .str then ((Piece.first c fmt).1.output s.args).take bufSize
      else (Piece.first c fmt).1.output s.args := output_cut htakes
  have hpieces : pieces s.fmt =
      [(Piece.first c fmt).1] ++ pieces (Piece.first c fmt).2 := by rw [hfmt, pieces]; rfl
  generalize Piece.first c fmt = p at *
  have hprints : ∀ text, text = p.1.output (s.args.map (VaArg.cut bufSize)) →
      text.length ≤ s.bufLeft → Prints bufSize [p.1] s (s.printed p text) := by
    rintro text rfl htext
    refine ⟨hpieces, ?_, ?_, ?_⟩
    · simp [PrintState.printed, formatted]
    · simp only [PrintState.printed, formatted, List.append_nil]
      omega
    · simp [PrintState.printed, argCount]
  by_cases hfits : (p.1.output s.args).length ≤ s.bufLeft
  · rw [if_pos hfits]
    refine .inl ⟨_, rfl, hprints _ ?_ hfits, rfl⟩
    rw [hcut]
    split
    · exact (List.take_of_length_le (Nat.le_trans hfits hle)).symm
    · rfl
  · rw [if_neg hfits]
    by_cases hfull : p.1 = .str ∧ s.bufLeft = bufSize
    · rw [if_pos hfull]
      refine .inl ⟨_, rfl, hprints _ ?_ (by simp), rfl⟩
      rw [hcut, if_pos hfull.1, hfull.2]
    · rw [if_neg hfull]
      refine .inr ⟨by rw [← hfmt], fun heq => ?_⟩
      -- an integer or a character fits an empty buffer
      cases hp : p.1 with
      | str => exact hfull ⟨hp, heq⟩
      | text c => exact hfits (by rw [hp]; exact hleft)
      | unknown => exact hfits (by rw [hp]; exact Nat.zero_le _)
      | char =>
          rw [hp] at hfits htakes
          match hargs : s.args, htakes with
          | .int v :: rest, _ => exact hfits (by rw [hargs]; exact hleft)
      | int flags =>
          rw [hp] at hfits htakes
          match hargs : s.args, htakes with
          | arg :: rest, htakes =>
              rw [hargs, heq] at hfits
              exact hfits (hints flags arg htakes)

theorem fitsInts_pos (hints : FitsInts W bufSize) : 0 < bufSize := by
  have hone := hints 0 (.int 0#32) rfl
  have hzero : (intText (vprintdBase 0) (VaArg.value 0 (.int 0#32 : VaArg W))).length = 1 := rfl
  omega

/-- **One call** prints pieces from the front of the format, at least one if the buffer is
empty, and stops within as many turns as the format has characters. -/
theorem vsnprintkLoop_prints (hints : FitsInts W bufSize) (hle : s.bufLeft ≤ bufSize)
    (hmatch : Matching (pieces s.fmt) s.args) (hfuel : s.fmt.length ≤ fuel) :
    ∃ s' ps, vsnprintkLoop bufSize fuel s = some s' ∧ Prints bufSize ps s s' ∧
      s'.fmt.length ≤ s.fmt.length ∧
      (s.bufLeft = bufSize → s.fmt ≠ [] → s'.fmt.length < s.fmt.length) := by
  have hpos := fitsInts_pos hints
  induction fuel generalizing s with
  | zero =>
      have hnil : s.fmt = [] := List.eq_nil_of_length_eq_zero (Nat.le_zero.mp hfuel)
      exact ⟨s, [], by rw [vsnprintkLoop, if_pos (.inl hnil)], .refl s, Nat.le_refl _,
        fun _ hne => (hne hnil).elim⟩
  | succ fuel ih =>
      rw [vsnprintkLoop]
      cases hfmt : s.fmt with
      | nil => exact ⟨s, [], rfl, .refl s, by rw [hfmt], fun _ hne => (hne rfl).elim⟩
      | cons c fmt =>
          dsimp only
          by_cases hleft : 0 < s.bufLeft
          · rw [hfmt, pieces] at hmatch
            rw [if_pos hleft]
            rcases printTurn_cases hints hleft hle hfmt hmatch.1 with
              ⟨t, hturn, hprints, ht⟩ | ⟨hturn, hfull⟩
            · have hshort : t.fmt.length ≤ fmt.length := ht ▸ Piece.length_first c fmt
              have htle : t.bufLeft ≤ bufSize := by
                have hconserved := hprints.left
                omega
              have htmatch : Matching (pieces t.fmt) t.args := by
                rw [ht, hprints.args]
                exact hmatch.2
              rw [hfmt, List.length_cons] at hfuel
              obtain ⟨s', ps, hloop, hrest, hlen, -⟩ :=
                ih htle htmatch (Nat.le_trans hshort (Nat.le_of_succ_le_succ hfuel))
              have hlt : s'.fmt.length < (c :: fmt).length :=
                Nat.lt_succ_of_le (Nat.le_trans hlen hshort)
              refine ⟨s', _, by rw [hturn]; exact hloop, hprints.trans hrest, ?_, fun _ _ => hlt⟩
              exact Nat.le_of_lt hlt
            · exact ⟨s, [], by rw [hturn], .refl s, by rw [hfmt], fun heq => (hfull heq).elim⟩
          · rw [if_neg hleft]
            exact ⟨s, [], rfl, .refl s, by rw [hfmt], fun heq => absurd (heq ▸ hpos) hleft⟩

theorem vsnprintk_prints (hints : FitsInts W bufSize) (hmatch : Matching (pieces fmt) args)
    (hfuel : fmt.length ≤ fuel) :
    ∃ ps text fmt', vsnprintk bufSize fuel fmt args =
        some (text.length, text, fmt', args.drop (argCount ps)) ∧
      pieces fmt = ps ++ pieces fmt' ∧ text = formatted ps (args.map (VaArg.cut bufSize)) ∧
      text.length ≤ bufSize ∧ (fmt ≠ [] → fmt'.length < fmt.length) := by
  obtain ⟨s', ps, hloop, hprints, -, hshort⟩ :=
    vsnprintkLoop_prints (s := ⟨some [], bufSize, fmt, args⟩) hints (Nat.le_refl _) hmatch hfuel
  have hleft := hprints.left
  dsimp only at hleft
  refine ⟨ps, _, s'.fmt, ?_, hprints.fmt, rfl, by omega, hshort rfl⟩
  rw [vsnprintk, hloop, Option.bind_some, hprints.buf, hprints.args, Option.map_some,
    Option.map_some, List.nil_append]
  congr 2
  omega

/-- A conversion that does not fit is left in the format, with its argument. -/
example : vsnprintk (W := ⟨32, Nat.le_refl 32⟩) 3 4 ['a', '%', 'd', 'b'] [.int 123#32] =
    some (1, ['a'], ['%', 'd', 'b'], [.int 123#32]) := by rfl

/-- **A buffer with room for all of the text** takes it in one call, without a cut. -/
theorem vsnprintkLoop_whole (hmatch : Matching (pieces s.fmt) s.args)
    (hroom : (formatted (pieces s.fmt) s.args).length < s.bufLeft)
    (hfuel : s.fmt.length ≤ fuel) :
    vsnprintkLoop bufSize fuel s =
      some ⟨s.buf.map (· ++ formatted (pieces s.fmt) s.args),
        s.bufLeft - (formatted (pieces s.fmt) s.args).length, [],
        s.args.drop (argCount (pieces s.fmt))⟩ := by
  have hnil : ∀ s : PrintState W, s.fmt = [] →
      s = ⟨s.buf.map (· ++ formatted (pieces s.fmt) s.args),
        s.bufLeft - (formatted (pieces s.fmt) s.args).length, [],
        s.args.drop (argCount (pieces s.fmt))⟩ := by
    rintro ⟨buf, bufLeft, fmt, args⟩ rfl
    cases buf <;> simp [pieces, formatted, argCount]
  induction fuel generalizing s with
  | zero =>
      have hfmt : s.fmt = [] := List.eq_nil_of_length_eq_zero (Nat.le_zero.mp hfuel)
      rw [vsnprintkLoop, if_pos (.inl hfmt)]
      exact congrArg some (hnil s hfmt)
  | succ fuel ih =>
      rw [vsnprintkLoop]
      cases hfmt : s.fmt with
      | nil =>
          have h := congrArg some (hnil s hfmt)
          rwa [hfmt] at h
      | cons c fmt =>
          rw [hfmt, pieces] at hmatch hroom
          rw [formatted, List.length_append] at hroom
          have hleft : 0 < s.bufLeft := by omega
          dsimp only
          rw [if_pos hleft, printTurn_eq hleft hmatch.1, if_pos (by omega)]
          dsimp only
          rw [hfmt, List.length_cons] at hfuel
          have hshort := Piece.length_first c fmt
          rw [ih (s := s.printed _ _) hmatch.2 (by dsimp only [PrintState.printed]; omega)
            (by dsimp only [PrintState.printed]; omega), pieces, formatted]
          have hcount : argCount ((Piece.first c fmt).1 :: pieces (Piece.first c fmt).2) =
            (Piece.first c fmt).1.argCount + argCount (pieces (Piece.first c fmt).2) := rfl
          simp only [PrintState.printed, Option.map_map, List.drop_drop, hcount, List.length_append,
            Nat.sub_sub]
          congr 3
          funext text
          exact List.append_assoc ..

/-! ## The loop of calls -/

/-- **The loop of `console_printk`** ends within as many calls as the format has
characters. -/
theorem consolePrintk_prints (hints : FitsInts W bufSize) (hmatch : Matching (pieces fmt) args)
    (hfuel : fmt.length ≤ fuel) :
    ∃ chunks, consolePrintk bufSize fuel fmt args =
        some (chunks, args.drop (argCount (pieces fmt))) ∧
      chunks.flatMap Chunk.buf = formatted (pieces fmt) (args.map (VaArg.cut bufSize)) ∧
      ∀ chunk ∈ chunks, chunk.buf.length = chunk.charsWriten ∧ chunk.charsWriten ≤ bufSize := by
  induction fuel generalizing fmt args with
  | zero =>
      obtain rfl : fmt = [] := List.eq_nil_of_length_eq_zero (Nat.le_zero.mp hfuel)
      exact ⟨[], by simp [consolePrintk, pieces, argCount], by simp [pieces, formatted], by simp⟩
  | succ fuel ih =>
      cases fmt with
      | nil =>
          exact ⟨[], by simp [consolePrintk, pieces, argCount], by simp [pieces, formatted],
            by simp⟩
      | cons c fmt =>
          obtain ⟨ps, text, fmt', hcall, hsplit, htext, hlen, hshort⟩ :=
            vsnprintk_prints hints hmatch hfuel
          have hlt := hshort (List.cons_ne_nil c fmt)
          rw [hsplit] at hmatch
          obtain ⟨-, hrest⟩ := matching_append.mp hmatch
          obtain ⟨chunks, hchunks, hflat, hall⟩ := ih hrest (by omega)
          refine ⟨⟨text.length, text⟩ :: chunks, ?_, ?_, ?_⟩
          · rw [consolePrintk, hcall, Option.bind_some]
            dsimp only
            rw [hchunks, Option.map_some, List.drop_drop, hsplit, argCount_append]
          · rw [List.flatMap_cons, hflat, hsplit, formatted_append, htext, List.map_drop]
          · intro chunk hchunk
            rcases List.mem_cons.mp hchunk with rfl | hchunk
            · exact ⟨rfl, hlen⟩
            · exact hall chunk hchunk

theorem consoleWrite_chunks {chunks : List Chunk}
    (h : ∀ chunk ∈ chunks, chunk.buf.length = chunk.charsWriten ∧ chunk.charsWriten ≤ bufSize) :
    chunks.flatMap (fun chunk => consoleWrite chunk.buf (min bufSize chunk.charsWriten)) =
      consoleWrite (chunks.flatMap Chunk.buf) (chunks.flatMap Chunk.buf).length := by
  rw [consoleWrite, List.take_length, List.flatMap_assoc]
  apply List.flatMap_congr
  intro chunk hchunk
  obtain ⟨hlen, hle⟩ := h chunk hchunk
  rw [consoleWrite, Nat.min_eq_right hle, ← hlen, List.take_length]

theorem matching_cut (h : Matching ps args) : Matching ps (args.map (VaArg.cut bufSize)) := by
  induction ps generalizing args with
  | nil => trivial
  | cons p ps ih =>
      refine ⟨?_, by rw [← List.map_drop]; exact ih h.2⟩
      have htakes := h.1
      cases p with
      | text c => cases args <;> trivial
      | unknown => cases args <;> trivial
      | int flags =>
          match args, htakes with
          | .int v :: rest, htakes => exact htakes
          | .long v :: rest, htakes => exact htakes
          | .str s :: rest, htakes => exact htakes.elim
      | str =>
          match args, htakes with
          | .str s :: rest, _ => trivial
      | char =>
          match args, htakes with
          | .int v :: rest, _ => trivial

theorem fitsInts_of_le (h : W.bits + 1 ≤ bufSize) : FitsInts W bufSize := by
  intro flags arg hmatches
  obtain ⟨hbase, hle⟩ := one_lt_vprintdBase flags
  obtain ⟨hvalue, -⟩ := vprintd_eq hmatches [] none
  have hlog := log_lt hbase hvalue
  rw [intText, List.length_append, List.length_map, Numerals.length_numeral hbase]
  split
  · rw [List.length_singleton]
    omega
  · rw [List.length_nil]
    omega

/-- **Printing in chunks is plain formatting**: for every format, all arguments that match
it, and every buffer that takes the longest integer.  The loop ends, its chunks are no
longer than the buffer and are together the text of the whole format, with each string cut
to the size of the buffer, and each conversion takes its own argument.  A call with room
for all of that text writes the same. -/
theorem console_printk_formats (hints : FitsInts W bufSize)
    (hmatch : Matching (pieces fmt) args) :
    ∃ text, text = formatted (pieces fmt) (args.map (VaArg.cut bufSize)) ∧
      (∀ fuel, fmt.length ≤ fuel → ∃ chunks,
        consolePrintk bufSize fuel fmt args =
          some (chunks, args.drop (argCount (pieces fmt))) ∧
        chunks.flatMap Chunk.buf = text ∧
        (∀ chunk ∈ chunks, chunk.buf.length = chunk.charsWriten ∧
          chunk.charsWriten ≤ bufSize) ∧
        chunks.flatMap (fun chunk => consoleWrite chunk.buf (min bufSize chunk.charsWriten)) =
          consoleWrite text text.length) ∧
      ∀ size fuel, text.length < size → fmt.length ≤ fuel →
        vsnprintk size fuel fmt (args.map (VaArg.cut bufSize)) = some (text.length, text, [],
          (args.map (VaArg.cut bufSize)).drop (argCount (pieces fmt))) := by
  refine ⟨_, rfl, fun fuel hfuel => ?_, fun size fuel hroom hfuel => ?_⟩
  · obtain ⟨chunks, hrun, hflat, hall⟩ := consolePrintk_prints hints hmatch hfuel
    have huart := consoleWrite_chunks hall
    rw [hflat] at huart
    exact ⟨chunks, hrun, hflat, hall, huart⟩
  · let s : PrintState W := ⟨some [], size, fmt, args.map (VaArg.cut bufSize)⟩
    have hwhole : vsnprintkLoop size fuel s =
        some ⟨s.buf.map (· ++ formatted (pieces s.fmt) s.args),
          s.bufLeft - (formatted (pieces s.fmt) s.args).length, [],
          s.args.drop (argCount (pieces s.fmt))⟩ :=
      vsnprintkLoop_whole (matching_cut hmatch) hroom hfuel
    rw [vsnprintk, hwhole, Option.bind_some, Option.map_some, Option.map_some, List.nil_append]
    congr 2
    dsimp only [s]
    omega

/-- An integer and a string behind it. -/
theorem console_printk_formats_two : ∃ chunks : List Chunk,
    consolePrintk (W := ⟨32, Nat.le_refl 32⟩) 33 5 ['%', 'd', ',', '%', 's']
      [.int 7#32, .str ['o', 'k']] = some (chunks, []) ∧
    chunks.flatMap Chunk.buf = ['7', ',', 'o', 'k'] := by
  have hpieces : pieces ['%', 'd', ',', '%', 's'] = [.int 0, .text ',', .str] := by
    simp [pieces, Piece.first, Piece.ofConversion, skipFlags, skipLength, isSkipped, isDigit]
  have hmatch : Matching (W := ⟨32, Nat.le_refl 32⟩) (pieces ['%', 'd', ',', '%', 's'])
      [.int 7#32, .str ['o', 'k']] := by
    rw [hpieces]
    exact ⟨rfl, trivial, trivial, trivial⟩
  obtain ⟨text, htext, hchunks, -⟩ :=
    console_printk_formats (fitsInts_of_le (Nat.le_refl 33)) hmatch
  obtain ⟨chunks, hrun, hflat, -⟩ := hchunks 5 (Nat.le_refl 5)
  rw [hpieces] at hrun htext
  have hseven : intText 10 7 = ['7'] := by decide +kernel
  refine ⟨chunks, hrun, ?_⟩
  rw [hflat, htext]
  simp [formatted, Piece.argCount, VaArg.cut, VaArg.value, vprintdIsUnsigned,
    vprintdBase, fUnsigned, fBase16, hseven]

end Bao
