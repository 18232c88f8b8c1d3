import Mathlib.Data.String.Basic
import VersionedContent.Json.Decoder
import VersionedContent.Proofs.JsonTexts

/-!
# Values that were read

A value that was read as a whole has the members of its objects in the order of their keys, nests no
deeper than was allowed, and its whole numbers fit 64 bits (`Json.Decoder.settled_of_any`). Reading
it once more changes nothing (`Json.Decoder.any_ofValue`).
-/

set_option autoImplicit false

namespace VersionedContent.Json

/-! ### Numbers of a text -/

namespace Number

open Decimal

/-- A number with a fraction, an exponent or too many digits is a double. -/
theorem isInt_of_double? {w : Written} {n : Number} (h : w.double? = some n) :
    n.isInt = false := by
  have hsigned : ∀ {o : Option Float} {negative : Bool} {n : Number},
      o.map (signed negative) = some n → n.isInt = false := by
    intro o negative n hn
    obtain ⟨f, -, rfl⟩ := Option.map_eq_some_iff.mp hn
    rfl
  unfold Written.double? at h
  dsimp only at h
  split at h
  · exact hsigned h
  · split at h
    · exact hsigned h
    · split_ifs at h
      rw [← Option.some.inj h]
      rfl

/-- A number is read as a whole one if it is spelled without fraction and exponent, fits 64 bits
with or without sign, and is no negative zero. -/
theorem value?_eq_int_iff {w : Written} {i : Int} :
    w.value? = some (.int i) ↔ w.fraction = none ∧ w.exponent = none ∧
      if w.negative then (valueFrom 0 w.whole : Int) = -i ∧ -(2 : Int) ^ 63 ≤ i ∧ i < 0
      else (valueFrom 0 w.whole : Int) = i ∧ i < (2 : Int) ^ 64 := by
  have hdouble : w.double? ≠ some (.int i) := fun h ↦ nomatch isInt_of_double? h
  have hsize : UInt64.size = 2 ^ 64 := rfl
  have hhalf : Nat.pow 2 63 = 2 ^ 63 := rfl
  unfold Written.value?
  split
  · next n hfraction hexponent hdigits =>
    obtain ⟨rfl, hfits⟩ := (takeDigits_eq_iff (by decide)).mp hdigits
    simp only [hfraction, hexponent, true_and]
    cases hsign : w.negative with
    | false =>
      simp only [Bool.not_false, if_true, Bool.false_eq_true, if_false, Option.some.injEq,
        Number.int.injEq]
      omega
    | true =>
      simp only [Bool.not_true, Bool.false_eq_true, if_false, if_true]
      split_ifs
      · simp only [Option.some.injEq, Number.int.injEq]
        omega
      · simp only [hdouble, false_iff]
        omega
  · next hother =>
    simp only [hdouble, false_iff]
    rintro ⟨hfraction, hexponent, hvalue⟩
    refine hother (valueFrom 0 w.whole) hfraction hexponent
      ((takeDigits_eq_iff (by decide)).mpr ⟨rfl, ?_⟩)
    split_ifs at hvalue <;> omega

/-- Every whole number that is read fits 64 bits. -/
theorem fits64_of_value? {w : Written} {n : Number} (h : w.value? = some n) :
    n.fits64 = true := by
  cases n with
  | double bits => rfl
  | int i =>
    obtain ⟨-, -, hvalue⟩ := value?_eq_int_iff.mp h
    simp only [fits64, Bool.and_eq_true, decide_eq_true_eq]
    split_ifs at hvalue <;> omega

end Number

namespace Fragment

mutual

/-- Every whole number of a fragment fits 64 bits. -/
def Bounded : Fragment → Prop
  | .number (.ok n) _ => n.fits64 = true
  | .array items _ => BoundedItems items
  | .object members _ => BoundedMembers members
  | .number (.error _) _ | .word _ | .string _ | .missing _ => True

/-- Every whole number of some items fits 64 bits. -/
def BoundedItems : List Fragment → Prop
  | [] => True
  | f :: rest => Bounded f ∧ BoundedItems rest

/-- Every whole number of some members fits 64 bits. -/
def BoundedMembers : List (Quote × Fragment) → Prop
  | [] => True
  | (_, f) :: rest => Bounded f ∧ BoundedMembers rest

end

theorem bounded_brokenNumber (gs : List Glyph) : (brokenNumber gs).1.Bounded := trivial

theorem bounded_wholeNumber (w : Number.Written) (gs : List Glyph) :
    (wholeNumber w gs).1.Bounded := by
  unfold wholeNumber
  cases hvalue : w.value? with
  | none => trivial
  | some n => exact Number.fits64_of_value? hvalue

theorem bounded_readExponent (w : Number.Written) (gs : List Glyph) :
    (readExponent w gs).1.Bounded := by
  unfold readExponent
  split
  any_goals
    dsimp only
    split
    · exact bounded_brokenNumber _
    · exact bounded_wholeNumber _ _
  exact bounded_wholeNumber w gs

theorem bounded_readNumber (negative : Bool) (gs : List Glyph) :
    (readNumber negative gs).1.Bounded := by
  unfold readNumber readFraction
  repeat' split
  all_goals first
    | exact bounded_brokenNumber _
    | exact bounded_readExponent _ _

theorem bounded_readWord (value : Option Bool) (cs : List Char) (gs : List Glyph) :
    (readWord value cs gs).1.Bounded := by
  induction cs generalizing gs with
  | nil => trivial
  | cons c cs ih =>
    cases gs with
    | nil => trivial
    | cons g gs =>
      rw [readWord]
      split_ifs
      · exact ih gs
      · trivial

/-- Every whole number that is read fits 64 bits, in a value, in items and in members. -/
theorem bounded_reads (fuel : Nat) :
    (∀ gs, (read fuel gs).1.Bounded) ∧ (∀ gs, BoundedItems (readItems fuel gs).1) ∧
      ∀ gs, BoundedMembers (readMembers fuel gs).1 := by
  induction fuel with
  | zero => exact ⟨fun _ ↦ trivial, fun _ ↦ trivial, fun _ ↦ trivial⟩
  | succ fuel ih =>
    obtain ⟨hread, hitems, hmembers⟩ := ih
    have hvalue {gs f rest} (h : read fuel gs = (f, rest)) : f.Bounded := by
      simpa only [h] using hread gs
    have harray {gs items after} (h : readItems fuel gs = (items, after)) : BoundedItems items := by
      simpa only [h] using hitems gs
    have hobject {gs members after} (h : readMembers fuel gs = (members, after)) :
        BoundedMembers members := by
      simpa only [h] using hmembers gs
    -- every branch ends in a word, in a number or in something that is read with less fuel
    refine ⟨fun gs ↦ ?_, fun gs ↦ ?_, fun gs ↦ ?_⟩
    · rw [read]
      repeat' split
      all_goals first
        | exact bounded_readWord _ _ _
        | exact bounded_readNumber _ _
        | exact harray ‹_›
        | exact hobject ‹_›
        | trivial
    · rw [readItems]
      repeat' split
      all_goals first
        | exact ⟨hvalue ‹_›, trivial⟩
        | exact ⟨hvalue ‹_›, trivial, trivial⟩
        | exact ⟨hvalue ‹_›, harray ‹_›⟩
    · rw [readMembers]
      repeat' split
      all_goals first
        | exact ⟨trivial, trivial⟩
        | exact ⟨hvalue ‹_›, trivial⟩
        | exact ⟨hvalue ‹_›, trivial, trivial⟩
        | exact ⟨hvalue ‹_›, hobject ‹_›⟩

theorem bounded_ofGlyphs (gs : List Glyph) : (ofGlyphs gs).1.Bounded := (bounded_reads _).1 gs

end Fragment

/-! ### Values -/

mutual

/-- Whether a value is one that can be read at a place where so many more levels may be opened: the
keys of its objects ascend and its whole numbers fit 64 bits. -/
def Settled (depth : Nat) : Json → Prop
  | .null | .bool _ | .string _ => True
  | .number n => n.fits64 = true
  | .array items =>
    match depth with
    | 0 => False
    | depth + 1 => SettledItems depth items
  | .object members =>
    match depth with
    | 0 => False
    | depth + 1 => SettledMembers depth members

/-- Whether all of some items can be read. -/
def SettledItems (depth : Nat) : List Json → Prop
  | [] => True
  | v :: rest => Settled depth v ∧ SettledItems depth rest

/-- Whether members have ascending keys and values that can be read. -/
def SettledMembers (depth : Nat) : List (String × Json) → Prop
  | [] => True
  | (key, v) :: rest =>
    (∀ member ∈ rest, key < member.1) ∧ Settled depth v ∧ SettledMembers depth rest

end

section

variable {depth : Nat} {key : String} {v : Json} {ms : List (String × Json)}

theorem mem_insertMember {member : String × Json} (h : member ∈ insertMember key v ms) :
    member = (key, v) ∨ member ∈ ms := by
  induction ms with
  | nil => simpa [insertMember] using h
  | cons m ms ih =>
    rw [insertMember] at h
    split_ifs at h
    · simpa using h
    · rcases List.mem_cons.mp h with rfl | hrest
      · exact Or.inl rfl
      · exact Or.inr (List.mem_cons_of_mem m hrest)
    · rcases List.mem_cons.mp h with rfl | hrest
      · exact Or.inr List.mem_cons_self
      · exact (ih hrest).imp_right (List.mem_cons_of_mem m)

/-- A member is put where its key belongs. -/
theorem settledMembers_insertMember (hms : SettledMembers depth ms) (hv : Settled depth v) :
    SettledMembers depth (insertMember key v ms) := by
  induction ms with
  | nil => exact ⟨nofun, hv, trivial⟩
  | cons m ms ih =>
    obtain ⟨k, w⟩ := m
    obtain ⟨hkeys, hw, hrest⟩ := hms
    rw [insertMember]
    split_ifs with hlt heq
    · refine ⟨fun member hmember ↦ ?_, hv, hkeys, hw, hrest⟩
      rcases List.mem_cons.mp hmember with rfl | hmember
      · exact hlt
      · exact lt_trans hlt (hkeys member hmember)
    · exact ⟨heq ▸ hkeys, hv, hrest⟩
    · refine ⟨fun member hmember ↦ ?_, hw, ih hrest⟩
      rcases mem_insertMember hmember with rfl | hmember
      · exact lt_of_le_of_ne (not_lt.mp hlt) (Ne.symm heq)
      · exact hkeys member hmember

theorem insertMember_eq_append (h : ∀ member ∈ ms, member.1 < key) :
    insertMember key v ms = ms ++ [(key, v)] := by
  induction ms with
  | nil => rfl
  | cons m ms ih =>
    obtain ⟨hm, hrest⟩ := List.forall_mem_cons.mp h
    rw [insertMember, if_neg (lt_asymm hm), if_neg (ne_of_gt hm), ih hrest]
    rfl

end

namespace Decoder

open Fragment

theorem bind_eq_ok {ε α β : Type} {x : Except ε α} {f : α → Except ε β} {b : β} :
    x.bind f = .ok b ↔ ∃ a, x = .ok a ∧ f a = .ok b := by
  cases x <;> simp [Except.bind]

theorem map_eq_ok {ε α β : Type} {x : Except ε α} {f : α → β} {b : β} :
    x.map f = .ok b ↔ ∃ a, x = .ok a ∧ f a = b := by
  cases x <;> simp [Except.map]

theorem mapError_eq_ok {ε δ α : Type} {x : Except ε α} {f : ε → δ} {a : α} :
    x.mapError f = .ok a ↔ x = .ok a := by
  cases x <;> simp [Except.mapError]

mutual

/-- A value that can be read is read as it is. -/
theorem any_ofValue : (v : Json) → ∀ {depth : Nat}, Settled depth v →
    any depth (ofValue v) = .ok v
  | .null, _, _ | .bool _, _, _ | .string _, _, _ | .number _, _, _ => rfl
  | .array vs, depth + 1, hvs => by
    rw [ofValue, any, anyItems_ofItems vs hvs]
    rfl
  | .object ms, depth + 1, hms => by
    rw [ofValue, any, anyMembers_ofMembers ms hms fun _ hnone ↦ absurd hnone List.not_mem_nil]
    rfl

/-- Items that can be read are read as they are. -/
theorem anyItems_ofItems : (vs : List Json) → ∀ {depth : Nat}, SettledItems depth vs →
    anyItems depth (ofItems vs) = .ok vs
  | [], _, _ => rfl
  | v :: rest, depth, ⟨hv, hrest⟩ => by
    rw [ofItems, anyItems, any_ofValue v hv, anyItems_ofItems rest hrest]
    rfl

/-- Members that can be read follow those with smaller keys. -/
theorem anyMembers_ofMembers : (ms : List (String × Json)) → ∀ {depth : Nat},
    SettledMembers depth ms → ∀ {sorted : List (String × Json)},
      (∀ before ∈ sorted, ∀ member ∈ ms, before.1 < member.1) →
        anyMembers depth sorted (ofMembers ms) = .ok (sorted ++ ms)
  | [], _, _, sorted, _ => by
    rw [ofMembers, anyMembers, List.append_nil]
  | (key, v) :: rest, depth, ⟨hkeys, hv, hrest⟩, sorted, hsorted => by
    have hlast : insertMember key v sorted = sorted ++ [(key, v)] :=
      insertMember_eq_append fun before hbefore ↦ hsorted before hbefore _ List.mem_cons_self
    have hnext : ∀ before ∈ sorted ++ [(key, v)], ∀ member ∈ rest, before.1 < member.1 := by
      intro before hbefore member hmember
      rcases List.mem_append.mp hbefore with hold | hnew
      · exact hsorted before hold member (List.mem_cons_of_mem _ hmember)
      · rw [List.mem_singleton.mp hnew]
        exact hkeys member hmember
    have htail := anyMembers_ofMembers rest hrest hnext
    rw [List.append_assoc] at htail
    rw [← hlast] at htail
    rw [ofMembers, anyMembers, any_ofValue v hv]
    exact htail

end

mutual

/-- Whatever is read as a whole can be read once more. -/
theorem settled_of_any : (f : Fragment) → ∀ {depth : Nat} {v : Json}, f.Bounded →
    any depth f = .ok v → Settled depth v
  | .word (.ok none), _, _, _, h | .word (.ok (some _)), _, _, _, h => by
    rw [any] at h
    cases h
    trivial
  | .number (.ok _) _, _, _, hf, h => by
    rw [any] at h
    cases h
    exact hf
  | .string quote, _, _, _, h => by
    rw [any] at h
    obtain ⟨_, -, rfl⟩ := map_eq_ok.mp h
    trivial
  | .array fs stop, depth, v, hf, h => by
    cases depth with
    | zero => exact absurd h nofun
    | succ depth =>
      rw [any] at h
      obtain ⟨vs, hvs, h⟩ := bind_eq_ok.mp h
      obtain ⟨_, -, h⟩ := bind_eq_ok.mp h
      cases h
      exact settledItems_of_anyItems fs hf hvs
  | .object ms stop, depth, v, hf, h => by
    cases depth with
    | zero => exact absurd h nofun
    | succ depth =>
      rw [any] at h
      obtain ⟨vs, hvs, h⟩ := bind_eq_ok.mp h
      obtain ⟨_, -, h⟩ := bind_eq_ok.mp h
      cases h
      have hempty : SettledMembers depth [] := trivial
      exact settledMembers_of_anyMembers ms hf hempty hvs

/-- Items that are read can be read once more. -/
theorem settledItems_of_anyItems : (fs : List Fragment) → ∀ {depth : Nat} {vs : List Json},
    BoundedItems fs → anyItems depth fs = .ok vs → SettledItems depth vs
  | [], _, _, _, h => by
    rw [anyItems] at h
    cases h
    trivial
  | f :: rest, _, _, ⟨hf, hrest⟩, h => by
    rw [anyItems] at h
    obtain ⟨v, hv, h⟩ := bind_eq_ok.mp h
    obtain ⟨vs, hvs, h⟩ := bind_eq_ok.mp h
    cases h
    exact ⟨settled_of_any f hf hv, settledItems_of_anyItems rest hrest hvs⟩

/-- Members that are read can be read once more, together with those before them. -/
theorem settledMembers_of_anyMembers : (fs : List (Quote × Fragment)) →
    ∀ {depth : Nat} {sorted ms : List (String × Json)}, BoundedMembers fs →
      SettledMembers depth sorted → anyMembers depth sorted fs = .ok ms → SettledMembers depth ms
  | [], _, _, _, _, hsorted, h => by
    rw [anyMembers] at h
    cases h
    exact hsorted
  | (key, f) :: rest, _, _, _, ⟨hf, hrest⟩, hsorted, h => by
    rw [anyMembers] at h
    obtain ⟨k, -, h⟩ := bind_eq_ok.mp h
    obtain ⟨v, hv, h⟩ := bind_eq_ok.mp h
    exact settledMembers_of_anyMembers rest hrest
      (settledMembers_insertMember hsorted (settled_of_any f hf hv)) h

end

theorem members_ofValue {depth : Nat} {ms : List (String × Json)} (h : SettledMembers depth ms) :
    members (depth + 1) (ofValue (.object ms)) = .ok ms := by
  rw [ofValue, members, anyMembers_ofMembers ms h fun _ hnone ↦ absurd hnone List.not_mem_nil]
  rfl

theorem settledMembers_of_members {depth : Nat} {f : Fragment} {ms : List (String × Json)}
    (hf : f.Bounded) (h : members (depth + 1) f = .ok ms) : SettledMembers depth ms := by
  unfold members at h
  split at h
  · exact absurd h nofun
  · next depth' hdepth =>
    obtain ⟨_, hms, h⟩ := bind_eq_ok.mp h
    obtain ⟨_, -, h⟩ := bind_eq_ok.mp h
    cases h
    cases hdepth
    have hempty : SettledMembers depth [] := trivial
    exact settledMembers_of_anyMembers _ hf hempty hms
  · exact absurd h nofun

end Decoder

/-! ### Numbers of values -/

mutual

/-- A value that can be read is printed exactly unless it holds a double. -/
theorem allNumbers_isExact : (v : Json) → ∀ {depth : Nat}, Settled depth v →
    v.allNumbers Number.isInt = true → v.allNumbers Number.isExact = true
  | .null, _, _, _ | .bool _, _, _, _ | .string _, _, _, _ => rfl
  | .number n, _, hn, hint => by
    rw [allNumbers] at hint ⊢
    rw [Number.isExact, hint, Bool.true_and]
    exact hn
  | .array vs, _ + 1, hvs, hint => allItemNumbers_isExact vs hvs hint
  | .object ms, _ + 1, hms, hint => allMemberNumbers_isExact ms hms hint

/-- Items that can be read are printed exactly unless they hold a double. -/
theorem allItemNumbers_isExact : (vs : List Json) → ∀ {depth : Nat}, SettledItems depth vs →
    allItemNumbers Number.isInt vs = true → allItemNumbers Number.isExact vs = true
  | [], _, _, _ => rfl
  | v :: rest, _, ⟨hv, hrest⟩, hint => by
    rw [allItemNumbers, Bool.and_eq_true] at hint ⊢
    exact ⟨allNumbers_isExact v hv hint.1, allItemNumbers_isExact rest hrest hint.2⟩

/-- Members that can be read are printed exactly unless they hold a double. -/
theorem allMemberNumbers_isExact : (ms : List (String × Json)) → ∀ {depth : Nat},
    SettledMembers depth ms → allMemberNumbers Number.isInt ms = true →
      allMemberNumbers Number.isExact ms = true
  | [], _, _, _ => rfl
  | (_, v) :: rest, _, ⟨_, hv, hrest⟩, hint => by
    rw [allMemberNumbers, Bool.and_eq_true] at hint ⊢
    exact ⟨allNumbers_isExact v hv hint.1, allMemberNumbers_isExact rest hrest hint.2⟩

end

end VersionedContent.Json
