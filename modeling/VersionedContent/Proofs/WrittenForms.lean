import Mathlib.Algebra.Ring.Nat
import Mathlib.Data.List.TakeWhile
import Mathlib.Tactic.SplitIfs
import VersionedContent.Proofs.DecimalDigits
import VersionedContent.Timestamp
import VersionedContent.Uuid

/-!
# Written forms of dates and identifiers

Every identifier is read back from its written form (`Uuid.ofText?_toText`), and so is every date
that a written form can have (`Timestamp.ofText?_toText`), which are exactly those that are ever
read (`Timestamp.isValid_of_ofText?`).
-/

set_option autoImplicit false

namespace VersionedContent

/-! ### Identifiers -/

namespace Uuid

theorem digit?_digitChar (d : Fin 16) : digit? (digitChar d) = some d := by
  revert d
  decide

theorem ofDigits?_digits (u : Uuid) : ofDigits? (u.digits.map digitChar) = some u := by
  have hdigits : ∀ ds : List (Fin 16), (ds.map digitChar).mapM digit? = some ds := by
    intro ds
    induction ds with
    | nil => rfl
    | cons d ds ih => simp [List.mapM_cons, digit?_digitChar, ih]
  simp [ofDigits?, hdigits, u.length_digits]

/-- Groups of characters are found again between hyphens. -/
theorem unhyphenate_hyphenate {ns : List Nat} {cs : List Char} (h : cs.length = ns.sum) :
    unhyphenate ns (hyphenate ns cs) = some cs := by
  induction ns generalizing cs with
  | nil =>
    rw [List.length_eq_zero_iff.mp h]
    rfl
  | cons n ns ih =>
    cases ns with
    | nil =>
      have hlength : cs.length = n := by simpa using h
      simp [hyphenate, unhyphenate, ← hlength]
    | cons m ns =>
      rw [List.sum_cons] at h
      have htake : (cs.take n).length = n := by
        rw [List.length_take]
        omega
      have hdrop : (cs.drop n).length = (m :: ns).sum := by
        rw [List.length_drop]
        omega
      have hrest := ih hdrop
      rw [hyphenate, unhyphenate, List.drop_left' htake, List.take_left' htake]
      · simp [hrest, List.take_append_drop]
      all_goals simp

/-- Every identifier is read back from its written form. -/
theorem ofText?_toText (u : Uuid) : ofText? u.toText = some u := by
  have hlength : (u.digits.map digitChar).length = groups.sum := by
    rw [List.length_map, u.length_digits]
    rfl
  have hgroups : (hyphenate groups (u.digits.map digitChar)).length = 36 := by
    simp [hyphenate, groups, u.length_digits]
  obtain ⟨d, ds, hds⟩ := List.exists_cons_of_length_pos (by rw [u.length_digits]; decide)
  obtain ⟨cs, hcs⟩ : ∃ cs, hyphenate groups (u.digits.map digitChar) = digitChar d :: cs := by
    rw [hds]
    exact ⟨_, rfl⟩
  -- a hexadecimal digit begins neither of the longer forms
  have hhead : ∀ d : Fin 16, (digitChar d).toLower ≠ 'u' ∧ digitChar d ≠ '\x7b' := by decide
  have hurn : dropUrn? (digitChar d :: cs) = none := by
    simp [dropUrn?, (hhead d).1]
  have hbraces : dropBraces? (digitChar d :: cs) = none := by
    unfold dropBraces?
    split
    · next heq => exact absurd (List.cons.inj heq).1 (hhead d).2
    · rfl
  unfold ofText? toText
  dsimp only
  rw [String.toList_ofList, hgroups, if_neg (by decide), hcs, hurn, hbraces, ← hcs]
  exact (congrArg (Option.bind · ofDigits?) (unhyphenate_hyphenate hlength)).trans
    (ofDigits?_digits u)

end Uuid

/-! ### Dates -/

namespace Timestamp

open Decimal

theorem digit?_digitChar {d : Nat} (h : d < 10) : digit? d.digitChar = some d := by
  revert d
  decide

/-- Digits are read as the number that they stand for. -/
theorem number?_digitChars {ds : List Nat} (hds : ∀ d ∈ ds, d < 10) (n : Nat) (cs : List Char) :
    number? ds.length n (ds.map Nat.digitChar ++ cs) = some (valueFrom n ds, cs) := by
  induction ds generalizing n with
  | nil => rfl
  | cons d ds ih =>
    obtain ⟨hd, hrest⟩ := List.forall_mem_cons.mp hds
    simp only [List.length_cons, List.map_cons, List.cons_append, number?, digit?_digitChar hd]
    exact ih hrest (n * 10 + d)

/-- The digits of a number after zeros that bring them to a length. -/
def paddedDigits (width n : Nat) : List Nat :=
  List.replicate (width - (digits n).length) 0 ++ digits n

theorem padded_eq (width n : Nat) : padded width n = (paddedDigits width n).map Nat.digitChar := by
  rw [padded, paddedDigits, toDigits_eq, List.length_map, List.map_append, List.map_replicate]
  rfl

theorem lt_of_mem_paddedDigits {width n : Nat} : ∀ d ∈ paddedDigits width n, d < 10 := by
  intro d hd
  rcases List.mem_append.mp hd with hzero | hdigit
  · rw [List.eq_of_mem_replicate hzero]
    decide
  · exact lt_of_mem_digits d hdigit

theorem valueFrom_zeros (n k : Nat) : valueFrom n (List.replicate k 0) = n * 10 ^ k := by
  induction k generalizing n with
  | zero => simp [valueFrom]
  | succ k ih =>
    have hstep : valueFrom n (List.replicate (k + 1) 0) = valueFrom (n * 10) (List.replicate k 0) :=
      rfl
    rw [hstep, ih, Nat.pow_succ']
    exact Nat.mul_assoc n 10 _

theorem valueFrom_paddedDigits (width n : Nat) : valueFrom 0 (paddedDigits width n) = n := by
  rw [paddedDigits, valueFrom_append, valueFrom_zeros, Nat.zero_mul, valueFrom_digits]

theorem length_paddedDigits {width n : Nat} (hwidth : 0 < width) (h : n < 10 ^ width) :
    (paddedDigits width n).length = width := by
  have hle : (digits n).length ≤ width := by
    rw [digits, List.length_map]
    exact (Nat.length_toDigits_le_iff (by decide) hwidth).mpr h
  rw [paddedDigits, List.length_append, List.length_replicate]
  omega

theorem number?_padded {width n : Nat} (hwidth : 0 < width) (h : n < 10 ^ width)
    (cs : List Char) : number? width 0 (padded width n ++ cs) = some (n, cs) := by
  have hlt : ∀ d ∈ paddedDigits width n, d < 10 := lt_of_mem_paddedDigits
  have hread := number?_digitChars hlt 0 cs
  rwa [length_paddedDigits hwidth h, valueFrom_paddedDigits, ← padded_eq] at hread

theorem eq_dropTrailingZeros_append (ds : List Char) :
    ∃ k, ds = dropTrailingZeros ds ++ List.replicate k '0' := by
  have hzeros : ∀ c ∈ ds.reverse.takeWhile (· == '0'), c = '0' := fun c hc ↦ by
    simpa using List.mem_takeWhile_imp hc
  have hreverse : (ds.reverse.takeWhile (· == '0')).reverse =
      List.replicate (ds.reverse.takeWhile (· == '0')).length '0' := by
    rw [List.eq_replicate_iff.mpr ⟨rfl, hzeros⟩, List.reverse_replicate, List.length_replicate]
  refine ⟨(ds.reverse.takeWhile (· == '0')).length, ?_⟩
  rw [dropTrailingZeros, ← hreverse, ← List.reverse_append, List.takeWhile_append_dropWhile,
    List.reverse_reverse]

/-- The digits of a fraction without the zeros at its end, and how many zeros there were. -/
theorem exists_dropTrailingZeros_padded (n : Nat) (h : n < 10 ^ 9) :
    ∃ ds k, dropTrailingZeros (padded 9 n) = ds.map Nat.digitChar ∧ (∀ d ∈ ds, d < 10) ∧
      ds.length + k = 9 ∧ valueFrom 0 ds * 10 ^ k = n := by
  obtain ⟨k, hk⟩ := eq_dropTrailingZeros_append (padded 9 n)
  rw [padded_eq] at hk ⊢
  obtain ⟨ds, zeros, hsplit, hds, hzeros⟩ := List.map_eq_append_iff.mp hk
  have hmem : ∀ d ∈ ds, d < 10 := fun d hd ↦
    lt_of_mem_paddedDigits d (hsplit ▸ List.mem_append_left zeros hd)
  have hlength : zeros.length = k := by
    rw [← List.length_map (f := Nat.digitChar), hzeros, List.length_replicate]
  have hzero : ∀ d ∈ zeros, d = 0 := by
    intro d hd
    have hlt : d < 10 := lt_of_mem_paddedDigits d (hsplit ▸ List.mem_append_right ds hd)
    have hchar : d.digitChar = '0' :=
      List.eq_of_mem_replicate (hzeros ▸ List.mem_map_of_mem (f := Nat.digitChar) hd)
    have hinj : ∀ d < 10, d.digitChar = '0' → d = 0 := by decide
    exact hinj d hlt hchar
  have htotal : ds.length + zeros.length = 9 := by
    rw [← List.length_append, ← hsplit, length_paddedDigits (by decide) h]
  have hvalue := valueFrom_paddedDigits 9 n
  rw [hsplit, valueFrom_append, List.eq_replicate_iff.mpr ⟨rfl, hzero⟩, valueFrom_zeros] at hvalue
  exact ⟨ds, k, hds.symm, hmem, hlength ▸ htotal, hlength ▸ hvalue⟩

/-- The fraction of a second is read as it was, whatever follows but a digit. -/
theorem fraction?_dropTrailingZeros {n : Nat} (hpos : 0 < n) (h : n < 10 ^ 9) {cs : List Char}
    (hend : ∀ c ∈ cs.head?, digit? c = none) :
    fraction? ('.' :: (dropTrailingZeros (padded 9 n) ++ cs)) = some (n, cs) := by
  obtain ⟨ds, k, hchars, hds, hlength, hvalue⟩ := exists_dropTrailingZeros_padded n h
  rw [hchars]
  have htake : (ds.map Nat.digitChar ++ cs).takeWhile (fun c ↦ (digit? c).isSome) =
      ds.map Nat.digitChar := by
    have hdigits : ∀ c ∈ ds.map Nat.digitChar, (digit? c).isSome = true := by
      intro c hc
      obtain ⟨d, hd, rfl⟩ := List.mem_map.mp hc
      rw [digit?_digitChar (hds d hd)]
      rfl
    have hrest : cs.takeWhile (fun c ↦ (digit? c).isSome) = [] := by
      cases cs with
      | nil => rfl
      | cons c cs => rw [List.takeWhile_cons, hend c rfl]; rfl
    rw [List.takeWhile_append_of_pos hdigits, hrest, List.append_nil]
  have hempty : (ds.map Nat.digitChar).isEmpty = false := by
    cases ds with
    | nil =>
      rw [valueFrom, List.foldl_nil, Nat.zero_mul] at hvalue
      omega
    | cons d ds => rfl
  have hleading : (ds.map Nat.digitChar).take 9 = ds.map Nat.digitChar :=
    List.take_of_length_le (by rw [List.length_map]; omega)
  have hread := number?_digitChars hds 0 []
  rw [List.append_nil, ← List.length_map (f := Nat.digitChar)] at hread
  simp only [fraction?, htake, hleading, hempty, hread, Bool.false_eq_true, if_false,
    Option.map_some, List.drop_left]
  rw [List.length_map, show 9 - ds.length = k by omega, ← hvalue]
  rfl

/-- The written form of an offset. -/
def offsetChars (offset : Int) : List Char :=
  if offset = 0 then ['Z']
  else (if offset < 0 then '-' else '+') ::
    (padded 2 (offset.natAbs / 60) ++ ':' :: padded 2 (offset.natAbs % 60))

theorem offset?_signed {sign : Char} (hsign : sign = '+' ∨ sign = '-') {hours minutes : Nat}
    (hhours : hours ≤ 23) (hminutes : minutes ≤ 59) :
    offset? (sign :: (padded 2 hours ++ ':' :: padded 2 minutes)) =
      some (if sign = '+' then ((hours * 60 + minutes : Nat) : Int)
        else -((hours * 60 + minutes : Nat) : Int)) := by
  have hread := number?_padded (by decide) (show hours < 10 ^ 2 by omega)
    (':' :: padded 2 minutes)
  have hrest := number?_padded (by decide) (show minutes < 10 ^ 2 by omega) []
  rw [List.append_nil] at hrest
  rw [offset?]
  · simp only [hread, literal?, hrest, Option.bind_eq_bind, Option.bind_some, hhours, hminutes,
      and_self, if_true]
    rcases hsign with rfl | rfl <;> rfl
  all_goals
    rintro hletter -
    rcases hsign with rfl | rfl <;> exact absurd hletter (by decide)

theorem offset?_offsetChars {offset : Int} (h : offset.natAbs < 24 * 60) :
    offset? (offsetChars offset) = some offset := by
  have hhours : offset.natAbs / 60 ≤ 23 := by omega
  have hminutes : offset.natAbs % 60 ≤ 59 := by omega
  unfold offsetChars
  split_ifs with hzero hneg
  · rw [hzero]
    rfl
  · rw [offset?_signed (Or.inr rfl) hhours hminutes, if_neg (by decide), Nat.div_add_mod']
    congr 1
    omega
  · rw [offset?_signed (Or.inl rfl) hhours hminutes, if_pos rfl, Nat.div_add_mod']
    congr 1
    omega

theorem head?_offsetChars (offset : Int) : ∀ c ∈ (offsetChars offset).head?, digit? c = none := by
  unfold offsetChars
  split_ifs <;> rintro _ ⟨⟩ <;> rfl

/-- A date that a written form can have is read back from its written form. -/
theorem ofText?_toText {t : Timestamp} (h : t.isValid = true) : ofText? t.toText = some t := by
  have hvalid := h
  simp only [isValid, Bool.and_eq_true, decide_eq_true_eq] at h
  obtain ⟨⟨⟨⟨⟨⟨⟨⟨⟨hyear, -⟩, hmonth⟩, -⟩, hday⟩, hhour⟩, hminute⟩, hsecond⟩, hnano⟩, hoffset⟩ := h
  have hdays : t.day < 10 ^ 2 := by
    have : daysIn t.year t.month ≤ 31 := by
      unfold daysIn
      split_ifs <;> decide
    omega
  have hfraction : fraction? ((if t.nanosecond = 0 then []
      else '.' :: dropTrailingZeros (padded 9 t.nanosecond)) ++ offsetChars t.offset) =
        some (t.nanosecond, offsetChars t.offset) := by
    split_ifs with hzero
    · rw [hzero]
      unfold offsetChars
      split_ifs <;> rfl
    · exact fraction?_dropTrailingZeros (Nat.pos_of_ne_zero hzero) hnano (head?_offsetChars _)
  have htext : t.toChars = padded 4 t.year ++ '-' :: (padded 2 t.month ++ '-' :: (padded 2 t.day ++
      'T' :: (padded 2 t.hour ++ ':' :: (padded 2 t.minute ++ ':' :: (padded 2 t.second ++
      ((if t.nanosecond = 0 then [] else '.' :: dropTrailingZeros (padded 9 t.nanosecond)) ++
        offsetChars t.offset)))))) := by
    simp only [toChars, offsetChars, List.append_assoc, List.cons_append]
  have hleap : (t.second == 60) = false := by
    rw [beq_eq_false_iff_ne]
    omega
  unfold ofText? toText ofChars?
  rw [String.toList_ofList, htext]
  -- each part of the text is read from its front
  have hread {α β : Type} {o : Option α} {x : α} {f : α → Option β} {y : β} (ho : o = some x)
      (hf : f x = some y) : o.bind f = some y := ho ▸ hf
  refine hread (number?_padded (by decide) hyear _) (hread rfl ?_)
  refine hread (number?_padded (by decide) (show t.month < 10 ^ 2 by omega) _) (hread rfl ?_)
  refine hread (number?_padded (by decide) hdays _) (hread rfl ?_)
  refine hread (number?_padded (by decide) (show t.hour < 10 ^ 2 by omega) _) (hread rfl ?_)
  refine hread (number?_padded (by decide) (show t.minute < 10 ^ 2 by omega) _) (hread rfl ?_)
  refine hread (number?_padded (by decide) (show t.second < 10 ^ 2 by omega) _) ?_
  refine hread hfraction (hread (offset?_offsetChars hoffset) ?_)
  dsimp only
  rw [hleap]
  exact if_pos ⟨hvalid, by decide, nofun⟩

/-- Only dates that a written form can have are read. -/
theorem isValid_of_ofText? {s : String} {t : Timestamp} (h : ofText? s = some t) :
    t.isValid = true := by
  unfold ofText? ofChars? at h
  -- one step for each part of the text
  obtain ⟨⟨year, _⟩, -, h⟩ := Option.bind_eq_some_iff.mp h
  obtain ⟨_, -, h⟩ := Option.bind_eq_some_iff.mp h
  obtain ⟨⟨month, _⟩, -, h⟩ := Option.bind_eq_some_iff.mp h
  obtain ⟨_, -, h⟩ := Option.bind_eq_some_iff.mp h
  obtain ⟨⟨day, _⟩, -, h⟩ := Option.bind_eq_some_iff.mp h
  obtain ⟨_, -, h⟩ := Option.bind_eq_some_iff.mp h
  obtain ⟨⟨hour, _⟩, -, h⟩ := Option.bind_eq_some_iff.mp h
  obtain ⟨_, -, h⟩ := Option.bind_eq_some_iff.mp h
  obtain ⟨⟨minute, _⟩, -, h⟩ := Option.bind_eq_some_iff.mp h
  obtain ⟨_, -, h⟩ := Option.bind_eq_some_iff.mp h
  obtain ⟨⟨second, _⟩, -, h⟩ := Option.bind_eq_some_iff.mp h
  obtain ⟨⟨nanosecond, _⟩, -, h⟩ := Option.bind_eq_some_iff.mp h
  obtain ⟨offset, -, h⟩ := Option.bind_eq_some_iff.mp h
  obtain ⟨⟨hvalid, -⟩, heq⟩ := Option.ite_none_right_eq_some.mp h
  exact Option.some.inj heq ▸ hvalid

end Timestamp

end VersionedContent
