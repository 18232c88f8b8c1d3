import Mathlib.Tactic.IntervalCases
import Mathlib.Tactic.SplitIfs
import VersionedContent.Json.Fragment
import VersionedContent.Json.Printer
import VersionedContent.Proofs.DecimalDigits

/-!
# Reading what was printed

A printed value is read as the fragment of the value, with nothing left over and whatever text
follows (`Json.Fragment.read_spaced`). The compact and the pretty form are one form with different
white space between the tokens. It takes that the value holds no number but whole ones of 64 bits,
which are the only ones that are read exactly.
-/

set_option autoImplicit false

namespace VersionedContent.Json

open Fragment

/-! ### Strings -/

namespace Fragment

/-- The piece that a printed character is read as. -/
def pieceOf (c : Char) : Piece :=
  if c.toNat < 32 ∧ c ∉ ['\x08', '\x0c', '\n', '\r', '\t'] then .unit c.toNat else .char c

theorem pieces_plain {c : Char} (hquote : c ≠ '"') (hslash : c ≠ '\\') (hshown : ¬c.toNat < 32)
    (gs : List Glyph) :
    pieces (some c :: gs) = (.char c :: (pieces gs).1, (pieces gs).2) := by
  rw [pieces]
  · rw [if_neg hshown]
  all_goals grind

theorem pieces_escape {g : Glyph} {c : Char} (hletter : g ≠ some 'u') (hc : escape? g = some c)
    (gs : List Glyph) :
    pieces (some '\\' :: g :: gs) = (.char c :: (pieces gs).1, (pieces gs).2) := by
  rw [pieces]
  · rw [hc]
  all_goals grind

theorem unit?_hexDigits {n : Nat} (h : n < 32) :
    unit? (some '0') (some '0') (some (n / 16).digitChar) (some (n % 16).digitChar) = some n := by
  revert n
  decide

/-- A printed character is one piece. -/
theorem pieces_escapedChar (c : Char) (gs : List Glyph) :
    pieces ((escapedChar c).map some ++ gs) = (pieceOf c :: (pieces gs).1, (pieces gs).2) := by
  unfold escapedChar
  split_ifs with hquote hslash hback hfeed hline hreturn htab hcontrol
  · subst hquote
    exact pieces_escape (by decide) rfl gs
  · subst hslash
    exact pieces_escape (by decide) rfl gs
  · subst hback
    exact pieces_escape (by decide) rfl gs
  · subst hfeed
    exact pieces_escape (by decide) rfl gs
  · subst hline
    exact pieces_escape (by decide) rfl gs
  · subst hreturn
    exact pieces_escape (by decide) rfl gs
  · subst htab
    exact pieces_escape (by decide) rfl gs
  · have hunit : pieceOf c = .unit c.toNat := if_pos ⟨hcontrol, by simp [*]⟩
    simp only [List.map_cons, List.map_nil, List.cons_append, List.nil_append]
    rw [pieces, unit?_hexDigits hcontrol, hunit]
  · have hchar : pieceOf c = .char c := if_neg fun h ↦ hcontrol h.1
    rw [hchar]
    exact pieces_plain hquote hslash hcontrol gs

theorem pieces_escaped (cs : List Char) (gs : List Glyph) :
    pieces ((cs.flatMap escapedChar).map some ++ some '"' :: gs) =
      (cs.map pieceOf, .ok gs) := by
  induction cs with
  | nil => rw [List.flatMap_nil, List.map_nil, List.nil_append, pieces]; rfl
  | cons c cs ih =>
    rw [List.flatMap_cons, List.map_append, List.append_assoc, pieces_escapedChar, ih]
    rfl

/-- A unit that is no half of a pair is a character. -/
theorem assemble_unit {n : Nat} (h : n < 0xd800) (ending : Option Problem) (ps : List Piece)
    (clean : Bool) :
    assemble ending (.unit n :: ps) clean =
      (assemble ending ps clean).map (Char.ofNat n :: ·) := by
  have hleading : isLeading n = false := by simp [isLeading, Nat.not_le.mpr h]
  have htrailing : isTrailing n = false := by
    simp [isTrailing, Nat.not_le.mpr (Nat.lt_trans h (by decide : 0xd800 < 0xdc00))]
  cases ps with
  | nil => simp [assemble, hleading, htrailing]
  | cons p ps => cases p <;> simp [assemble, hleading, htrailing]

theorem assemble_map_pieceOf (cs : List Char) : assemble none (cs.map pieceOf) true = .ok cs := by
  induction cs with
  | nil => rfl
  | cons c cs ih =>
    rw [List.map_cons, pieceOf]
    split_ifs with hunit
    · rw [assemble_unit (by omega), ih, Char.ofNat_toNat]
      rfl
    · rw [assemble, ih]
      rfl

/-- A printed string is read as it is. -/
theorem readQuote_renderString (s : String) (gs : List Glyph) :
    readQuote ((s.toList.flatMap escapedChar).map some ++ some '"' :: gs) =
      (⟨.ok s, none⟩, some gs) := by
  rw [readQuote, pieces_escaped]
  dsimp only
  rw [assemble_map_pieceOf]
  simp [Except.map]

/-! ### Numbers -/

/-- Whether a number ends before a text: neither a digit follows nor a part of a number. -/
def Ends (gs : List Glyph) : Prop :=
  ∀ g ∈ gs.head?, digit? g = none ∧ g ∉ [some '.', some 'e', some 'E']

theorem digit?_digitChar {d : Nat} (h : d < 10) : digit? (some d.digitChar) = some d := by
  revert d
  decide

theorem digits_digitChars {ds : List Nat} (hds : ∀ d ∈ ds, d < 10) {gs : List Glyph}
    (hends : Ends gs) : digits ((ds.map Nat.digitChar).map some ++ gs) = (ds, gs) := by
  induction ds with
  | nil =>
    cases gs with
    | nil => rfl
    | cons g gs =>
      rw [List.map_nil, List.map_nil, List.nil_append, digits, (hends g rfl).1]
  | cons d ds ih =>
    obtain ⟨hd, hrest⟩ := List.forall_mem_cons.mp hds
    simp only [List.map_cons, List.cons_append, digits, digit?_digitChar hd, ih hrest]

/-- A text in which a number ends goes on with neither a fraction nor an exponent. -/
theorem readFraction_ends {w : Number.Written} {gs : List Glyph} (hends : Ends gs) :
    readFraction w gs = wholeNumber w gs := by
  cases gs with
  | nil => rfl
  | cons g gs =>
    obtain ⟨-, hnot⟩ := hends g rfl
    simp only [List.mem_cons, List.not_mem_nil, or_false, not_or] at hnot
    obtain ⟨hpoint, hsmall, hlarge⟩ := hnot
    unfold readFraction readExponent
    split
    · next heq => exact absurd (List.cons.inj heq).1 hpoint
    · split
      · next heq => exact absurd (List.cons.inj heq).1 hsmall
      · next heq => exact absurd (List.cons.inj heq).1 hlarge
      · rfl

/-- The digits of a number are read as the number. -/
theorem readNumber_digits (negative : Bool) (n : Nat) {gs : List Glyph} (hends : Ends gs) :
    readNumber negative ((Nat.toDigits 10 n).map some ++ gs) =
      wholeNumber ⟨negative, Decimal.digits n, none, none⟩ gs := by
  rw [readNumber, Decimal.toDigits_eq, digits_digitChars Decimal.lt_of_mem_digits hends]
  split
  · next heq => exact absurd (congrArg Prod.fst heq) (Decimal.digits_ne_nil n)
  · next heq => exact absurd (congrArg Prod.fst heq) (Decimal.digits_ne_zero_cons n _ _)
  · next heq =>
    cases heq
    exact readFraction_ends hends

end Fragment

namespace Number

/-- Whether a number is a double, or a whole number that fits 64 bits. -/
def fits64 : Number → Bool
  | .int i => decide (-(2 : Int) ^ 63 ≤ i) && decide (i < (2 : Int) ^ 64)
  | .double _ => true

/-- Whether a number is whole. -/
def isInt : Number → Bool
  | .int _ => true
  | .double _ => false

theorem takeDigits_digits {n : Nat} (h : n < UInt64.size) :
    takeDigits 0 (Decimal.digits n) = (n, []) := by
  have hvalue : Decimal.valueFrom 0 (Decimal.digits n) = n := Decimal.valueFrom_digits n
  rw [takeDigits_eq (hvalue.symm ▸ h), hvalue]

theorem value?_digits {n : Nat} (h : n < UInt64.size) :
    (Written.mk false (Decimal.digits n) none none).value? = some (.int n) := by
  simp [Written.value?, takeDigits_digits h]

theorem value?_negative_digits {n : Nat} (hpos : 0 < n) (h : n ≤ 2 ^ 63) :
    (Written.mk true (Decimal.digits n) none none).value? = some (.int (-(n : Int))) := by
  have hfits : n < UInt64.size := Nat.lt_of_le_of_lt h (by decide)
  simp only [Written.value?, takeDigits_digits hfits, Bool.not_true, Bool.false_eq_true, if_false]
  exact if_pos ⟨hpos, h⟩

end Number

/-! ### White space between tokens -/

/-- White space of a printed form: before the items of a level and its end, and after colons. -/
structure Spacing where
  line : Nat → List Char
  colon : List Char
  isGap_line : ∀ indent, ∀ c ∈ line indent, isGap (some c) = true
  isGap_colon : ∀ c ∈ colon, isGap (some c) = true

mutual

/-- The form of a value with white space between its tokens. -/
def spaced (g : Spacing) (indent : Nat) : Json → List Char
  | .null => ['n', 'u', 'l', 'l']
  | .bool true => ['t', 'r', 'u', 'e']
  | .bool false => ['f', 'a', 'l', 's', 'e']
  | .number n => n.render
  | .string s => renderString s
  | .array [] => ['[', ']']
  | .array (v :: rest) =>
    '[' :: (g.line (indent + 1) ++ (spaced g (indent + 1) v ++ spacedItems g indent rest))
  | .object [] => ['\x7b', '\x7d']
  | .object ((k, v) :: rest) =>
    '\x7b' :: (g.line (indent + 1) ++ (renderString k ++ ':' :: (g.colon ++
      (spaced g (indent + 1) v ++ spacedMembers g indent rest))))

/-- The items of an array after the first, and its end. -/
def spacedItems (g : Spacing) (indent : Nat) : List Json → List Char
  | [] => g.line indent ++ [']']
  | v :: rest =>
    ',' :: (g.line (indent + 1) ++ (spaced g (indent + 1) v ++ spacedItems g indent rest))

/-- The members of an object after the first, and its end. -/
def spacedMembers (g : Spacing) (indent : Nat) : List (String × Json) → List Char
  | [] => g.line indent ++ ['\x7d']
  | (k, v) :: rest =>
    ',' :: (g.line (indent + 1) ++ (renderString k ++ ':' :: (g.colon ++
      (spaced g (indent + 1) v ++ spacedMembers g indent rest))))

end

namespace Spacing

/-- Nothing between the tokens. -/
def none : Spacing := ⟨fun _ ↦ [], [], by simp, by simp⟩

/-- One item or member a line, indented. -/
def lines : Spacing where
  line := newLine
  colon := [' ']
  isGap_line indent c hc := by
    rcases List.mem_cons.mp hc with rfl | hspace
    · decide
    · rw [List.eq_of_mem_replicate hspace]
      decide
  isGap_colon c hc := by
    rw [List.mem_singleton.mp hc]
    decide

end Spacing

mutual

theorem spaced_none (indent : Nat) : (v : Json) → spaced .none indent v = compact v
  | .null | .bool true | .bool false | .number _ | .string _ | .array [] | .object [] => by
    simp only [spaced, compact]
  | .array (v :: rest) => by
    simp only [spaced, compact, spaced_none, spacedItems_none]
    rfl
  | .object ((k, v) :: rest) => by
    simp only [spaced, compact, spaced_none, spacedMembers_none]
    rfl

theorem spacedItems_none (indent : Nat) :
    (vs : List Json) → spacedItems .none indent vs = compactItems vs
  | [] => by simp only [spacedItems, compactItems]; rfl
  | v :: rest => by
    simp only [spacedItems, compactItems, spaced_none, spacedItems_none]
    rfl

theorem spacedMembers_none (indent : Nat) :
    (ms : List (String × Json)) → spacedMembers .none indent ms = compactMembers ms
  | [] => by simp only [spacedMembers, compactMembers]; rfl
  | (k, v) :: rest => by
    simp only [spacedMembers, compactMembers, spaced_none, spacedMembers_none]
    rfl

end

mutual

theorem spaced_lines (indent : Nat) : (v : Json) → spaced .lines indent v = pretty indent v
  | .null | .bool true | .bool false | .number _ | .string _ | .array [] | .object [] => by
    simp only [spaced, pretty]
  | .array (v :: rest) => by
    simp only [spaced, pretty, spaced_lines, spacedItems_lines]
    rfl
  | .object ((k, v) :: rest) => by
    simp only [spaced, pretty, spaced_lines, spacedMembers_lines]
    rfl

theorem spacedItems_lines (indent : Nat) :
    (vs : List Json) → spacedItems .lines indent vs = prettyItems indent vs
  | [] => by simp only [spacedItems, prettyItems]; rfl
  | v :: rest => by
    simp only [spacedItems, prettyItems, spaced_lines, spacedItems_lines]
    rfl

theorem spacedMembers_lines (indent : Nat) :
    (ms : List (String × Json)) → spacedMembers .lines indent ms = prettyMembers indent ms
  | [] => by simp only [spacedMembers, prettyMembers]; rfl
  | (k, v) :: rest => by
    simp only [spacedMembers, prettyMembers, spaced_lines, spacedMembers_lines]
    rfl

end

/-! ### Values -/

mutual

/-- Whether all numbers of a value are of some kind. -/
def allNumbers (p : Number → Bool) : Json → Bool
  | .null | .bool _ | .string _ => true
  | .number n => p n
  | .array items => allItemNumbers p items
  | .object members => allMemberNumbers p members

/-- Whether all numbers of items are of some kind. -/
def allItemNumbers (p : Number → Bool) : List Json → Bool
  | [] => true
  | v :: rest => allNumbers p v && allItemNumbers p rest

/-- Whether all numbers of members are of some kind. -/
def allMemberNumbers (p : Number → Bool) : List (String × Json) → Bool
  | [] => true
  | (_, v) :: rest => allNumbers p v && allMemberNumbers p rest

end

theorem allItemNumbers_eq_all (p : Number → Bool) (vs : List Json) :
    allItemNumbers p vs = vs.all (allNumbers p) := by
  induction vs with
  | nil => rfl
  | cons v vs ih => rw [allItemNumbers, ih, List.all_cons]

/-- Whether a number is read as it was printed. -/
def Number.isExact (n : Number) : Bool := n.isInt && n.fits64

theorem Number.isExact_int_iff {i : Int} :
    (Number.int i).isExact = true ↔ -(2 : Int) ^ 63 ≤ i ∧ i < (2 : Int) ^ 64 := by
  simp [isExact, isInt, fits64]

namespace Fragment

variable {g : Spacing} {gs : List Glyph}

theorem token_gap {cs : List Char} (hgap : ∀ c ∈ cs, isGap (some c) = true) (gs : List Glyph) :
    token (cs.map some ++ gs) = token gs := by
  induction cs with
  | nil => rfl
  | cons c cs ih =>
    obtain ⟨hc, hrest⟩ := List.forall_mem_cons.mp hgap
    rw [List.map_cons, List.cons_append, token, List.dropWhile_cons, if_pos hc]
    exact ih hrest

theorem token_cons {x : Glyph} (h : isGap x = false) : token (x :: gs) = x :: gs := by
  rw [token, List.dropWhile_cons, h]
  rfl

theorem token_line {x : Glyph} (h : isGap x = false) {indent : Nat} :
    token ((g.line indent).map some ++ x :: gs) = x :: gs :=
  (token_gap (g.isGap_line indent) _).trans (token_cons h)

/-- White space before a value makes no difference. -/
theorem read_gap {cs : List Char} (hgap : ∀ c ∈ cs, isGap (some c) = true) (fuel : Nat)
    (gs : List Glyph) : read fuel (cs.map some ++ gs) = read fuel gs := by
  cases fuel with
  | zero => rfl
  | succ fuel => simp only [read, token_gap hgap]

theorem ends_gap {cs : List Char} (hgap : ∀ c ∈ cs, isGap (some c) = true) (h : Ends gs) :
    Ends (cs.map some ++ gs) := by
  have hchar : ∀ c : Char, isGap (some c) = true →
      digit? (some c) = none ∧ some c ∉ [some '.', some 'e', some 'E'] := by
    intro c hc
    simp only [isGap, List.mem_cons, Option.some.injEq, List.not_mem_nil, or_false,
      decide_eq_true_eq] at hc
    rcases hc with rfl | rfl | rfl | rfl <;> decide
  cases cs with
  | nil => exact h
  | cons c cs =>
    rintro _ ⟨⟩
    exact hchar c (hgap c List.mem_cons_self)

theorem ends_cons {c : Char} (h : c ∈ [',', ']', '\x7d']) : Ends (some c :: gs) := by
  rintro _ ⟨⟩
  simp only [List.mem_cons, List.not_mem_nil, or_false] at h
  rcases h with rfl | rfl | rfl <;> decide

theorem ends_spacedItems (indent : Nat) (vs : List Json) :
    Ends ((spacedItems g indent vs).map some ++ gs) := by
  cases vs with
  | nil =>
    rw [spacedItems, List.map_append, List.append_assoc]
    exact ends_gap (g.isGap_line indent) (ends_cons (by decide))
  | cons v rest => exact ends_cons (by decide)

theorem ends_spacedMembers (indent : Nat) (ms : List (String × Json)) :
    Ends ((spacedMembers g indent ms).map some ++ gs) := by
  cases ms with
  | nil =>
    rw [spacedMembers, List.map_append, List.append_assoc]
    exact ends_gap (g.isGap_line indent) (ends_cons (by decide))
  | cons m rest => exact ends_cons (by decide)

theorem read_digit {d : Nat} (hd : d < 10) (fuel : Nat) (gs : List Glyph) :
    read (fuel + 1) (some d.digitChar :: gs) = readNumber false (some d.digitChar :: gs) := by
  interval_cases d <;> rfl

theorem render_ofNat (n : Nat) : (Number.int (Int.ofNat n)).render = Nat.toDigits 10 n := by
  simp [Number.render, toString, Int.repr, Nat.repr]

theorem render_negSucc (n : Nat) :
    (Number.int (Int.negSucc n)).render = '-' :: Nat.toDigits 10 (n + 1) := by
  simp [Number.render, toString, Int.repr, Nat.repr]

theorem exists_toDigits_eq (n : Nat) : ∃ d < 10, ∃ cs, Nat.toDigits 10 n = d.digitChar :: cs := by
  obtain ⟨d, ds, hds⟩ := List.exists_cons_of_ne_nil (Decimal.digits_ne_nil n)
  exact ⟨d, Decimal.lt_of_mem_digits d (hds ▸ List.mem_cons_self), ds.map Nat.digitChar,
    by rw [Decimal.toDigits_eq, hds, List.map_cons]⟩

/-- A printed whole number is read as it is. -/
theorem read_render {n : Number} (hn : n.isExact = true) (fuel : Nat) (hends : Ends gs) :
    read (fuel + 1) (n.render.map some ++ gs) = (.number (.ok n) none, some gs) := by
  cases n with
  | double bits => simp [Number.isExact, Number.isInt] at hn
  | int i =>
    obtain ⟨hlow, hhigh⟩ := Number.isExact_int_iff.mp hn
    cases i with
    | ofNat n =>
      have hsize : n < UInt64.size := by
        rw [Int.ofNat_eq_natCast] at hhigh
        exact_mod_cast hhigh
      have hread : read (fuel + 1) ((Nat.toDigits 10 n).map some ++ gs) =
          readNumber false ((Nat.toDigits 10 n).map some ++ gs) := by
        obtain ⟨d, hd, cs, hcs⟩ := exists_toDigits_eq n
        rw [hcs]
        exact read_digit hd fuel _
      rw [render_ofNat, hread, readNumber_digits false n hends, wholeNumber,
        Number.value?_digits hsize]
      rfl
    | negSucc n =>
      have hread : read (fuel + 1) (('-' :: Nat.toDigits 10 (n + 1)).map some ++ gs) =
          readNumber true ((Nat.toDigits 10 (n + 1)).map some ++ gs) := rfl
      rw [render_negSucc, hread, readNumber_digits true (n + 1) hends, wholeNumber,
        Number.value?_negative_digits (Nat.succ_pos n) (by omega)]
      rfl

/-- A printed value begins with a character that is neither white space nor the end of an array. -/
theorem exists_spaced_eq (indent : Nat) {v : Json} (hv : v.allNumbers Number.isExact = true) :
    ∃ c cs, spaced g indent v = c :: cs ∧ isGap (some c) = false ∧ c ≠ ']' := by
  have hdigit : ∀ d < 10, isGap (some d.digitChar) = false ∧ d.digitChar ≠ ']' := by decide
  cases v with
  | null => exact ⟨_, _, by rw [spaced], by decide, by decide⟩
  | bool b => cases b <;> exact ⟨_, _, by rw [spaced], by decide, by decide⟩
  | string s => exact ⟨_, _, by rw [spaced, renderString], by decide, by decide⟩
  | array items => cases items <;> exact ⟨_, _, by rw [spaced], by decide, by decide⟩
  | object members => cases members <;> exact ⟨_, _, by rw [spaced], by decide, by decide⟩
  | number n =>
    rw [spaced]
    cases n with
    | double bits => simp [allNumbers, Number.isExact, Number.isInt] at hv
    | int i =>
      cases i with
      | ofNat n =>
        obtain ⟨d, hd, cs, hcs⟩ := exists_toDigits_eq n
        exact ⟨_, _, by rw [render_ofNat, hcs], hdigit d hd⟩
      | negSucc n => exact ⟨_, _, by rw [render_negSucc], by decide, by decide⟩

/-- An array that goes on with a value is read item by item. -/
theorem read_array {fuel : Nat} {c : Char} {rest : List Glyph}
    (htoken : token gs = some c :: rest) (hend : c ≠ ']') :
    read (fuel + 1) (some '[' :: gs) =
      (.array (readItems fuel (some c :: rest)).1 (readItems fuel (some c :: rest)).2.1,
        (readItems fuel (some c :: rest)).2.2) := by
  rw [read, token_cons (by decide)]
  simp [htoken, hend]

theorem read_object {fuel : Nat} {rest : List Glyph} (htoken : token gs = some '"' :: rest) :
    read (fuel + 1) (some '\x7b' :: gs) =
      (.object (readMembers fuel rest).1 (readMembers fuel rest).2.1,
        (readMembers fuel rest).2.2) := by
  rw [read, token_cons (by decide)]
  simp [htoken]

theorem readItems_last {fuel : Nat} {f : Fragment} {after rest : List Glyph}
    (hitem : read fuel gs = (f, some after)) (htoken : token after = some ']' :: rest) :
    readItems (fuel + 1) gs = ([f], none, some rest) := by
  rw [readItems, hitem]
  simp [htoken]

theorem readItems_more {fuel : Nat} {f : Fragment} {after next rest : List Glyph} {c : Char}
    (hitem : read fuel gs = (f, some after)) (hcomma : token after = some ',' :: next)
    (hnext : token next = some c :: rest) (hend : c ≠ ']') :
    readItems (fuel + 1) gs =
      (f :: (readItems fuel (some c :: rest)).1, (readItems fuel (some c :: rest)).2) := by
  rw [readItems, hitem]
  simp [hcomma, hnext, hend]

theorem readMembers_last {fuel : Nat} {key : Quote} {f : Fragment}
    {colon value after rest : List Glyph}
    (hkey : readQuote gs = (key, some colon)) (hcolon : token colon = some ':' :: value)
    (hvalue : read fuel value = (f, some after)) (htoken : token after = some '\x7d' :: rest) :
    readMembers (fuel + 1) gs = ([(key, f)], none, some rest) := by
  rw [readMembers, hkey]
  simp [hcolon, hvalue, htoken]

theorem readMembers_more {fuel : Nat} {key : Quote} {f : Fragment}
    {colon value after next rest : List Glyph}
    (hkey : readQuote gs = (key, some colon)) (hcolon : token colon = some ':' :: value)
    (hvalue : read fuel value = (f, some after)) (hcomma : token after = some ',' :: next)
    (hnext : token next = some '"' :: rest) :
    readMembers (fuel + 1) gs =
      ((key, f) :: (readMembers fuel rest).1, (readMembers fuel rest).2) := by
  rw [readMembers, hkey]
  simp [hcolon, hvalue, hcomma, hnext]

theorem map_renderString (s : String) (gs : List Glyph) :
    (renderString s).map some ++ gs =
      some '"' :: ((s.toList.flatMap escapedChar).map some ++ some '"' :: gs) := by
  simp [renderString]

theorem read_string (fuel : Nat) (gs : List Glyph) :
    read (fuel + 1) (some '"' :: gs) = (.string (readQuote gs).1, (readQuote gs).2) := rfl

/-- After white space, a printed value is the next token. -/
theorem token_line_spaced (indent : Nat) {v : Json} (hv : v.allNumbers Number.isExact = true)
    (gs : List Glyph) : ∃ c cs, c ≠ ']' ∧ (spaced g indent v).map some ++ gs = some c :: cs ∧
      token ((g.line indent).map some ++ ((spaced g indent v).map some ++ gs)) = some c :: cs := by
  obtain ⟨c, cs, hcs, hgap, hend⟩ := exists_spaced_eq (g := g) indent hv
  exact ⟨c, cs.map some ++ gs, hend, by rw [hcs]; rfl, by rw [hcs]; exact token_line hgap⟩

theorem length_spaced_pos (indent : Nat) {v : Json} (hv : v.allNumbers Number.isExact = true) :
    0 < (spaced g indent v).length := by
  obtain ⟨c, cs, hcs, -⟩ := exists_spaced_eq (g := g) indent hv
  rw [hcs]
  exact Nat.succ_pos _

mutual

/-- A printed value is read as its fragment, whatever follows. -/
theorem read_spaced (g : Spacing) : (v : Json) → v.allNumbers Number.isExact = true →
    ∀ {indent fuel : Nat} {gs : List Glyph}, 2 * (spaced g indent v).length ≤ fuel + 2 → Ends gs →
      read (fuel + 1) ((spaced g indent v).map some ++ gs) = (ofValue v, some gs)
  | .null, _, indent, fuel, gs, _, _ => by
    rw [spaced, ofValue]
    rfl
  | .bool true, _, indent, fuel, gs, _, _ => by
    rw [spaced, ofValue]
    rfl
  | .bool false, _, indent, fuel, gs, _, _ => by
    rw [spaced, ofValue]
    rfl
  | .number n, hv, indent, fuel, gs, _, hends => by
    rw [spaced, ofValue]
    exact read_render hv fuel hends
  | .string s, _, indent, fuel, gs, _, _ => by
    rw [spaced, ofValue, map_renderString, read_string, readQuote_renderString]
  | .array [], _, indent, fuel, gs, _, _ => by
    rw [spaced, ofValue, ofItems]
    rfl
  | .object [], _, indent, fuel, gs, _, _ => by
    rw [spaced, ofValue, ofMembers]
    rfl
  | .array (v :: rest), hv, indent, fuel, gs, hfuel, _ => by
    simp only [allNumbers, allItemNumbers, Bool.and_eq_true] at hv
    have hpos := length_spaced_pos (g := g) (indent + 1) hv.1
    simp only [spaced, List.length_cons, List.length_append] at hfuel
    -- the bracket takes two steps, one to read it and one to begin with the items
    obtain ⟨fuel, rfl⟩ : ∃ k, fuel = k + 2 := ⟨fuel - 2, by omega⟩
    have hroom : 2 * (spaced g (indent + 1) v).length ≤ fuel + 2 := by omega
    have hends : Ends ((spacedItems g indent rest).map some ++ gs) :=
      ends_spacedItems indent rest
    have hitem := read_spaced g v hv.1 hroom hends
    have hitems := readItems_spaced g rest hv.2 hitem (by omega)
    obtain ⟨c, cs, hend, hcs, htoken⟩ := token_line_spaced (g := g) (indent + 1) hv.1
      ((spacedItems g indent rest).map some ++ gs)
    rw [hcs] at hitems
    simp only [spaced, ofValue, ofItems, List.map_cons, List.map_append, List.cons_append,
      List.append_assoc]
    rw [read_array htoken hend, hitems]
  | .object ((k, v) :: rest), hv, indent, fuel, gs, hfuel, _ => by
    simp only [allNumbers, allMemberNumbers, Bool.and_eq_true] at hv
    have hpos := length_spaced_pos (g := g) (indent + 1) hv.1
    simp only [spaced, List.length_cons, List.length_append] at hfuel
    obtain ⟨fuel, rfl⟩ : ∃ k, fuel = k + 2 := ⟨fuel - 2, by omega⟩
    have hroom : 2 * (spaced g (indent + 1) v).length ≤ fuel + 2 := by omega
    have hends : Ends ((spacedMembers g indent rest).map some ++ gs) :=
      ends_spacedMembers indent rest
    have hvalue := read_spaced g v hv.1 hroom hends
    rw [← read_gap g.isGap_colon] at hvalue
    have hmembers := readMembers_spaced g rest hv.2 k hvalue (by omega)
    simp only [spaced, ofValue, ofMembers, List.map_cons, List.map_append, List.cons_append,
      List.append_assoc, map_renderString]
    rw [read_object (token_line (by decide)), hmembers]

/-- After an item, the others of a printed array and its end are read. -/
theorem readItems_spaced (g : Spacing) : (rest : List Json) →
    allItemNumbers Number.isExact rest = true → ∀ {indent fuel : Nat} {gs before : List Glyph}
      {f : Fragment},
      read (fuel + 1) before = (f, some ((spacedItems g indent rest).map some ++ gs)) →
      2 * (spacedItems g indent rest).length ≤ fuel + 3 →
      readItems (fuel + 2) before = (f :: ofItems rest, none, some gs)
  | [], _, indent, fuel, gs, before, f, hread, _ => by
    rw [ofItems]
    refine readItems_last hread ?_
    rw [spacedItems, List.map_append, List.append_assoc]
    exact token_line (by decide)
  | v :: rest, hv, indent, fuel, gs, before, f, hread, hfuel => by
    simp only [allItemNumbers, Bool.and_eq_true] at hv
    have hpos := length_spaced_pos (g := g) (indent + 1) hv.1
    simp only [spacedItems, List.length_cons, List.length_append] at hfuel
    obtain ⟨fuel, rfl⟩ : ∃ k, fuel = k + 1 := ⟨fuel - 1, by omega⟩
    have hroom : 2 * (spaced g (indent + 1) v).length ≤ fuel + 2 := by omega
    have hends : Ends ((spacedItems g indent rest).map some ++ gs) :=
      ends_spacedItems indent rest
    have hitem := read_spaced g v hv.1 hroom hends
    have hitems := readItems_spaced g rest hv.2 hitem (by omega)
    obtain ⟨c, cs, hend, hcs, htoken⟩ := token_line_spaced (g := g) (indent + 1) hv.1
      ((spacedItems g indent rest).map some ++ gs)
    rw [hcs] at hitems
    simp only [spacedItems, List.map_cons, List.map_append, List.cons_append,
      List.append_assoc] at hread
    rw [readItems_more hread (token_cons (by decide)) htoken hend, hitems, ofItems]

/-- After the value of a member, the others of a printed object and its end are read. -/
theorem readMembers_spaced (g : Spacing) : (rest : List (String × Json)) →
    allMemberNumbers Number.isExact rest = true → ∀ (key : String) {indent fuel : Nat}
      {gs value : List Glyph} {f : Fragment},
      read (fuel + 1) value = (f, some ((spacedMembers g indent rest).map some ++ gs)) →
      2 * (spacedMembers g indent rest).length ≤ fuel + 3 →
      readMembers (fuel + 2)
          ((key.toList.flatMap escapedChar).map some ++ some '"' :: some ':' :: value) =
        ((⟨.ok key, none⟩, f) :: ofMembers rest, none, some gs)
  | [], _, key, indent, fuel, gs, value, f, hread, _ => by
    rw [ofMembers]
    refine readMembers_last (readQuote_renderString key _) (token_cons (by decide)) hread ?_
    rw [spacedMembers, List.map_append, List.append_assoc]
    exact token_line (by decide)
  | (k, v) :: rest, hv, key, indent, fuel, gs, value, f, hread, hfuel => by
    simp only [allMemberNumbers, Bool.and_eq_true] at hv
    have hpos := length_spaced_pos (g := g) (indent + 1) hv.1
    simp only [spacedMembers, List.length_cons, List.length_append] at hfuel
    obtain ⟨fuel, rfl⟩ : ∃ k, fuel = k + 1 := ⟨fuel - 1, by omega⟩
    have hroom : 2 * (spaced g (indent + 1) v).length ≤ fuel + 2 := by omega
    have hends : Ends ((spacedMembers g indent rest).map some ++ gs) :=
      ends_spacedMembers indent rest
    have hvalue := read_spaced g v hv.1 hroom hends
    rw [← read_gap g.isGap_colon] at hvalue
    have hmembers := readMembers_spaced g rest hv.2 k hvalue (by omega)
    simp only [spacedMembers, List.map_cons, List.map_append, List.cons_append, List.append_assoc,
      map_renderString] at hread
    rw [readMembers_more (readQuote_renderString key _) (token_cons (by decide)) hread
      (token_cons (by decide)) (token_line (by decide)), hmembers, ofMembers]

end

/-- A printed value with a text after it in which numbers end is read from the front of a text. -/
theorem ofGlyphs_spaced (g : Spacing) {v : Json} (hv : v.allNumbers Number.isExact = true)
    {tail : List Glyph} (hends : Ends tail) :
    ofGlyphs ((spaced g 0 v).map some ++ tail) = (ofValue v, some tail) := by
  refine read_spaced g v hv ?_ hends
  simp only [List.length_append, List.length_map]
  omega

end Fragment

end VersionedContent.Json
