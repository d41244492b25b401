import Mathlib.Data.List.Basic
import SimCompiler.Json.Scalar

/-!
# Reading back strings and numbers

The text of a plain value is read as that value, and the cursor then stands right behind it. A
string ends with its closing quote. A number ends where no more of it can follow, which in a
document is in front of a comma or a closing bracket.
-/
namespace SimCompiler.Json

namespace Reader

/-- Moves the cursor from `before` to `after`, both of which are the text that is left there, and
answers `a`. -/
def Moves (r : Reader α) (before after : List Char) (a : α) : Prop :=
  ∀ offset bound, before.length ≤ bound → after.length ≤ bound ∧
    ∃ offset', r ⟨before, offset, bound⟩ = .ok a ⟨after, offset', bound⟩

theorem moves_pure (a : α) (text : List Char) : Moves (pure a) text text a :=
  fun offset _ hbound => ⟨hbound, offset, rfl⟩

theorem Moves.bind {r : Reader α} {f : α → Reader β} {before between after : List Char} {a : α}
    {b : β} (h : Moves r before between a) (hf : Moves (f a) between after b) :
    Moves (r >>= f) before after b := by
  intro offset bound hbound
  obtain ⟨hbetween, offset', hr⟩ := h offset bound hbound
  obtain ⟨hafter, offset'', hfa⟩ := hf offset' bound hbetween
  refine ⟨hafter, offset'', ?_⟩
  change EStateM.bind r f _ = _
  rw [EStateM.bind, hr]
  exact hfa

theorem Moves.placed {r : Reader α} {before after : List Char} {a : α}
    (h : Moves r before after a) : Moves (placed r) before after a := by
  intro offset bound hbound
  obtain ⟨hafter, offset', hr⟩ := h offset bound hbound
  refine ⟨hafter, offset', ?_⟩
  rw [Reader.placed, hr]

theorem Moves.enclosed {inside : Reader α} {closing : Reader Unit}
    {before between after : List Char} {a : α} (h : Moves inside before between a)
    (hclosing : Moves closing between after ()) :
    Moves (enclosed inside closing) before after a := by
  intro offset bound hbound
  obtain ⟨hbetween, offset', hinside⟩ := h offset bound hbound
  obtain ⟨hafter, offset'', hclose⟩ := hclosing offset' bound hbetween
  refine ⟨hafter, offset'', ?_⟩
  rw [Reader.enclosed, hinside]
  simp only [hclose]

theorem moves_peek (text : List Char) : Moves peek text text text.head? :=
  fun offset _ hbound => ⟨hbound, offset, rfl⟩

theorem moves_skip (c : Char) (text : List Char) : Moves skip (c :: text) text () := by
  intro offset bound hbound
  rw [List.length_cons] at hbound
  exact ⟨by omega, _, rfl⟩

theorem moves_peekToken {c : Char} (hc : isBlank c = false) (text : List Char) :
    Moves peekToken (c :: text) (c :: text) (some c) := by
  intro offset bound hbound
  refine ⟨hbound, offset, ?_⟩
  change EStateM.Result.ok ((c :: text).dropWhile isBlank).head?
    (Cursor.mk ((c :: text).dropWhile isBlank) (offset + ((c :: text).takeWhile isBlank).length)
      bound) = _
  rw [List.dropWhile_cons_of_neg (by simp [hc]), List.takeWhile_cons_of_neg (by simp [hc])]
  rfl

theorem moves_peekToken_nil : Moves peekToken [] [] none :=
  fun offset _ hbound => ⟨hbound, offset, rfl⟩

/-- There are more rounds than there is text. -/
theorem moves_rounds_bind {f : Nat → Reader α} {before after : List Char} {a : α}
    (h : ∀ n, before.length < n → Moves (f n) before after a) :
    Moves (rounds >>= f) before after a := by
  intro offset bound hbound
  exact h (bound + 1) (by omega) offset bound hbound

theorem moves_get_bind {f : Cursor → Reader α} {before after : List Char} {a : α}
    (h : ∀ offset bound, Moves (f ⟨before, offset, bound⟩) before after a) :
    Moves (get >>= f) before after a := by
  intro offset bound hbound
  exact h offset bound offset bound hbound

theorem moves_letters (word text : List Char) : Moves (letters word) (word ++ text) text () := by
  induction word with
  | nil => exact moves_pure () text
  | cons c word ih =>
    refine (moves_peek _).bind ?_
    change Moves (if c == c then skip >>= fun _ => letters word else failAt _) _ _ _
    rw [if_pos BEq.rfl]
    exact (moves_skip c _).bind ih

/-! ### Strings -/

/-- The four digits of an escaped control character. -/
theorem moves_hexEscape {n : Nat} (hn : n < 0x20) (text : List Char) :
    Moves hexEscape ('0' :: '0' :: Nat.digitChar (n / 16) :: Nat.digitChar (n % 16) :: text) text
      n := by
  have hsize : ∀ n < 0x20, (Nat.digitChar (n / 16)).utf8Size = 1 ∧
      (Nat.digitChar (n % 16)).utf8Size = 1 := by decide
  have hvalue : ∀ n < 0x20,
      hexValue? '0' '0' (Nat.digitChar (n / 16)) (Nat.digitChar (n % 16)) = some n := by decide
  intro offset bound hbound
  simp only [List.length_cons] at hbound
  refine ⟨by omega, offset + 4, ?_⟩
  have hcount : (('0' :: '0' :: Nat.digitChar (n / 16) :: Nat.digitChar (n % 16) :: text).take
      4).foldl (fun k x => k + x.utf8Size) 0 = 4 := by
    have hzero : ('0' : Char).utf8Size = 1 := by decide
    simp [hsize n hn, hzero]
  unfold hexEscape
  change (if (('0' :: '0' :: Nat.digitChar (n / 16) :: Nat.digitChar (n % 16) :: text).take
    4).foldl (fun k x => k + x.utf8Size) 0 < 4 then _ else _ : Reader Nat) _ = _
  rw [hcount, if_neg (Nat.lt_irrefl 4), hvalue n hn]
  rfl

theorem moves_escape {x y : Char} (hx : simpleEscape? x = some y) (text : List Char) :
    Moves escape (x :: text) text y := by
  refine (moves_peek _).bind ?_
  rw [List.head?_cons]
  split
  · next hnone => cases hnone
  · next hu =>
    cases hu
    cases hx
  · next x' _ heq =>
    cases heq
    rw [hx]
    exact (moves_skip _ _).bind (moves_pure _ _)

theorem moves_unicodeEscape {n : Nat} (hn : n < 0x20) (text : List Char) :
    Moves escape ('u' :: '0' :: '0' :: Nat.digitChar (n / 16) :: Nat.digitChar (n % 16) :: text)
      text (Char.ofNat n) := by
  refine (moves_peek _).bind ((moves_skip _ _).bind ((moves_hexEscape hn text).bind ?_))
  have hlone : (decide (0xDC00 ≤ n) && decide (n ≤ 0xDFFF)) = false := by
    rw [decide_eq_false (by omega), Bool.false_and]
  have hsingle : (decide (n < 0xD800) || decide (0xDBFF < n)) = true := by
    rw [decide_eq_true (by omega), Bool.true_or]
  rw [hlone, hsingle]
  exact moves_pure _ _

/-- One round reads one character, whether it is escaped or not. -/
theorem Moves.stringTail_cons {c : Char} {n : Nat} {done text after : List Char} {s : String}
    (h : Moves (stringTail n (c :: done)) text after s) :
    Moves (stringTail (n + 1) done) (escapeChar c ++ text) after s := by
  have hescape : ∀ x, simpleEscape? x = some c →
      Moves (stringTail (n + 1) done) ('\\' :: x :: text) after s := fun x hx =>
    (moves_peek _).bind ((moves_skip _ _).bind ((moves_escape hx text).bind h))
  unfold escapeChar
  split
  · exact hescape _ rfl
  · exact hescape _ rfl
  · exact hescape _ rfl
  · exact hescape _ rfl
  · exact hescape _ rfl
  · exact hescape _ rfl
  · exact hescape _ rfl
  · next hquote hbackslash _ _ _ _ _ =>
    split
    · next hcontrol =>
      refine (moves_peek _).bind ((moves_skip _ _).bind
        ((moves_unicodeEscape hcontrol text).bind ?_))
      rw [Char.ofNat_toNat]
      exact h
    · next hplain =>
      refine (moves_peek _).bind ?_
      rw [List.singleton_append, List.head?_cons]
      split
      · next hnone => cases hnone
      · next heq => exact absurd (Option.some.inj heq) hquote
      · next heq => exact absurd (Option.some.inj heq) hbackslash
      · next x _ _ heq =>
        cases heq
        rw [if_neg hplain]
        exact (moves_skip _ _).bind h

theorem moves_stringTail (cs : List Char) {n : Nat} (hn : cs.length < n) (done text : List Char) :
    Moves (stringTail n done) (cs.flatMap escapeChar ++ '"' :: text) text
      (String.ofList (done.reverse ++ cs)) := by
  induction cs generalizing n done with
  | nil =>
    obtain ⟨n, rfl⟩ : ∃ k, n = k + 1 := ⟨n - 1, by simp at hn; omega⟩
    rw [List.append_nil]
    exact (moves_peek _).bind ((moves_skip _ _).bind (moves_pure _ _))
  | cons c cs ih =>
    rw [List.length_cons] at hn
    obtain ⟨n, rfl⟩ : ∃ k, n = k + 1 := ⟨n - 1, by omega⟩
    rw [List.flatMap_cons, List.append_assoc]
    have hrest := ih (by omega : cs.length < n) (c :: done)
    rw [List.reverse_cons, List.append_assoc, List.singleton_append] at hrest
    exact hrest.stringTail_cons

theorem length_le_flatMap {f : α → List Char} (hf : ∀ a, 0 < (f a).length) (xs : List α) :
    xs.length ≤ (xs.flatMap f).length := by
  induction xs with
  | nil => simp
  | cons a xs ih =>
    rw [List.flatMap_cons, List.length_append, List.length_cons]
    have ha := hf a
    omega

theorem length_escapeChar_pos (c : Char) : 0 < (escapeChar c).length := by
  unfold escapeChar
  split
  any_goals simp
  split <;> simp

theorem toList_quote (s : String) :
    (quote s).toList = '"' :: (s.toList.flatMap escapeChar ++ ['"']) := by
  simp [quote]

/-- A quoted text is read back. -/
theorem moves_string (s : String) (text : List Char) :
    Moves string ((quote s).toList ++ text) text s := by
  rw [toList_quote, List.cons_append, List.append_assoc, List.singleton_append]
  refine (moves_skip _ _).bind (moves_rounds_bind fun n hn => ?_)
  have hlength := length_le_flatMap length_escapeChar_pos s.toList
  rw [List.length_append] at hn
  have htail := moves_stringTail s.toList (by omega : s.toList.length < n) [] text
  rwa [List.reverse_nil, List.nil_append, String.ofList_toList] at htail

/-! ### Numbers -/

/-- The text goes on with a comma or a closing bracket, if at all. -/
def Ends (text : List Char) : Prop :=
  ∀ c, text.head? = some c → c = ',' ∨ c = ']' ∨ c = '\x7d'

theorem Ends.ne {text : List Char} (h : Ends text) {c : Char}
    (hc : c ≠ ',' ∧ c ≠ ']' ∧ c ≠ '\x7d') : text.head? ≠ some c := by
  intro hhead
  obtain rfl | rfl | rfl := h c hhead
  · exact hc.1 rfl
  · exact hc.2.1 rfl
  · exact hc.2.2 rfl

theorem Ends.not_isDigit {text : List Char} (h : Ends text) :
    ∀ c, text.head? = some c → c.isDigit = false := by
  intro c hc
  obtain rfl | rfl | rfl := h c hc <;> decide

theorem moves_digits {ds text : List Char} (hds : ∀ c ∈ ds, c.isDigit = true)
    (htext : ∀ c, text.head? = some c → c.isDigit = false) :
    Moves digits (ds ++ text) text ds := by
  have htake : text.takeWhile Char.isDigit = [] := by
    cases text with
    | nil => rfl
    | cons c text => exact List.takeWhile_cons_of_neg (by simp [htext c rfl])
  have hdrop : text.dropWhile Char.isDigit = text := by
    cases text with
    | nil => rfl
    | cons c text => exact List.dropWhile_cons_of_neg (by simp [htext c rfl])
  intro offset bound hbound
  rw [List.length_append] at hbound
  refine ⟨by omega, offset + ds.length, ?_⟩
  change EStateM.Result.ok ((ds ++ text).takeWhile Char.isDigit)
    (Cursor.mk ((ds ++ text).dropWhile Char.isDigit)
      (offset + ((ds ++ text).takeWhile Char.isDigit).length) bound) = _
  rw [List.takeWhile_append_of_pos hds, List.dropWhile_append_of_pos hds, htake, hdrop,
    List.append_nil]

theorem digitsValue_toDigits (n : Nat) : digitsValue (Nat.toDigits 10 n) = n := by
  have hfold : ∀ (ds : List Char) (k : Nat),
      ds.foldl (fun n d => n * 10 + (d.toNat - '0'.toNat)) k = Nat.ofDigitChars 10 ds k := by
    intro ds
    induction ds with
    | nil => intro k; rfl
    | cons d ds ih =>
      intro k
      rw [List.foldl_cons, ih, Nat.ofDigitChars_cons, Nat.mul_comm]
  rw [digitsValue, hfold, Nat.ofDigitChars_ten_toDigits]

/-- Only zero is written with a zero in front. -/
theorem toDigits_eq_zero {n : Nat} (h : (Nat.toDigits 10 n).head? = some '0') :
    Nat.toDigits 10 n = ['0'] := by
  induction n using Nat.strongRecOn with
  | ind n ih =>
    by_cases hn : n < 10
    · rw [Nat.toDigits_of_lt_base hn] at h ⊢
      rw [Option.some.inj h]
    · rw [Nat.toDigits_of_base_le (by omega) (by omega)] at h
      have hhead : (Nat.toDigits 10 (n / 10)).head? = some '0' := by
        rwa [List.head?_append_of_ne_nil _ Nat.toDigits_ne_nil] at h
      have hzero := congrArg digitsValue (ih (n / 10) (by omega) hhead)
      rw [digitsValue_toDigits] at hzero
      have hone : digitsValue ['0'] = 0 := by decide
      omega

theorem moves_wholePart {isNegative : Bool} {n : Nat} {number : Number}
    (hwhole : wholeNumber isNegative (Nat.toDigits 10 n) = pure number) {text : List Char} (hends : Ends text) :
    Moves (wholePart isNegative) (Nat.toDigits 10 n ++ text) text number := by
  have hdigits : ∀ c ∈ Nat.toDigits 10 n, c.isDigit = true := fun c hc =>
    Nat.isDigit_of_mem_toDigits (by omega) (by omega) hc
  refine (moves_digits hdigits hends.not_isDigit).bind ((moves_peek _).bind ?_)
  split
  · next hpoint => exact absurd hpoint (hends.ne (by decide))
  · next hexponent => exact absurd hexponent (hends.ne (by decide))
  · next hexponent => exact absurd hexponent (hends.ne (by decide))
  · rw [hwhole]
    exact moves_pure _ _

theorem moves_magnitude {isNegative : Bool} {n : Nat} {number : Number}
    (hwhole : wholeNumber isNegative (Nat.toDigits 10 n) = pure number) {text : List Char} (hends : Ends text) :
    Moves (magnitude isNegative) (Nat.toDigits 10 n ++ text) text number := by
  have hpart := moves_wholePart hwhole hends
  cases hds : Nat.toDigits 10 n with
  | nil => exact absurd hds Nat.toDigits_ne_nil
  | cons d ds =>
    have hdigit : d.isDigit = true :=
      Nat.isDigit_of_mem_toDigits (b := 10) (n := n) (by omega) (by omega) (by simp [hds])
    -- A zero in front is all there is of the number.
    have hsingle : (d == '0' && (ds ++ text).head?.any Char.isDigit) = false := by
      by_cases hd : d = '0'
      · have hzero := toDigits_eq_zero (n := n) (by rw [hds, hd]; rfl)
        obtain ⟨-, rfl⟩ : d = '0' ∧ ds = [] := by simpa [hds] using hzero
        cases htext : text.head? with
        | none => simp [htext]
        | some c => simp [htext, hends.not_isDigit c htext]
      · simp [hd]
    rw [hds] at hpart
    refine (moves_peek _).bind ?_
    change Moves (if (!d.isDigit) = true then failAt _ else _) _ _ _
    rw [hdigit]
    refine moves_get_bind fun offset bound => ?_
    change Moves (if (d == '0' && (ds ++ text).head?.any Char.isDigit) = true then _ else _) _ _ _
    rw [hsingle]
    exact hpart

theorem wholeNumber_unsigned {n : Nat} (h : n < Nat.pow 2 64) :
    wholeNumber false (Nat.toDigits 10 n) = pure (.unsigned n) := by
  rw [wholeNumber, digitsValue_toDigits, Bool.not_false, Bool.true_and, if_pos (decide_eq_true h)]

theorem wholeNumber_negative {n : Nat} (hpos : 0 < n) (h : n ≤ Nat.pow 2 63) :
    wholeNumber true (Nat.toDigits 10 n) = pure (.negative (-n)) := by
  rw [wholeNumber, digitsValue_toDigits, Bool.not_true, Bool.false_and, if_neg Bool.false_ne_true, Bool.true_and,
    decide_eq_true hpos, decide_eq_true h, Bool.true_and, if_pos rfl]

/-- A number as the reader tells it from others. -/
def numberOf (n : Int) : Number := if 0 ≤ n then .unsigned n.toNat else .negative n

theorem moves_number {n : Int} (hfrom : -Nat.pow 2 63 ≤ n) (hto : n < Nat.pow 2 63)
    {text : List Char} (hends : Ends text) :
    Moves number ((toString n).toList ++ text) text (numberOf n) := by
  have hlimits : Nat.pow 2 63 < Nat.pow 2 64 := by decide
  rw [Int.toString_eq_repr, Int.repr_eq_if, numberOf]
  by_cases hn : 0 ≤ n
  · rw [if_pos hn, if_pos hn, Nat.repr_eq_ofList_toDigits, String.toList_ofList]
    have hsign : ((Nat.toDigits 10 n.toNat ++ text).head? == some '-') = false := by
      rw [List.head?_append_of_ne_nil _ Nat.toDigits_ne_nil, beq_eq_false_iff_ne]
      intro hminus
      have hdigit := Nat.isDigit_of_mem_toDigits (b := 10) (by omega) (by omega)
        (List.mem_of_head? hminus)
      revert hdigit
      decide
    refine (moves_peek _).bind ?_
    rw [hsign]
    exact moves_magnitude (wholeNumber_unsigned (by omega)) hends
  · have hminus : "-".toList = ['-'] := rfl
    rw [if_neg hn, if_neg hn, String.toList_append, hminus, Nat.repr_eq_ofList_toDigits,
      String.toList_ofList, List.append_assoc, List.singleton_append]
    have hvalue : (-((-n).toNat : Int)) = n := by omega
    have hmagnitude := moves_magnitude (wholeNumber_negative (n := (-n).toNat) (by omega)
      (by omega)) hends
    rw [hvalue] at hmagnitude
    exact (moves_peek _).bind ((moves_skip _ _).bind hmagnitude)

end Reader

/-- The values of a kind, doubles apart. -/
def Scalar.Holds : Scalar → Json → Prop
  | .text, .str _ | .truth, .bool _ => True
  | .u32, .int n => 0 ≤ n ∧ n < Nat.pow 2 32
  | .i64, .int n => -Nat.pow 2 63 ≤ n ∧ n < Nat.pow 2 63
  | _, _ => False

namespace Reader

/-- A number begins with a sign or a digit. -/
theorem exists_toString (n : Int) : ∃ x ds, (toString n).toList = x :: ds ∧
    (x == '-' || x.isDigit) = true := by
  rw [Int.toString_eq_repr, Int.repr_eq_if]
  by_cases hn : 0 ≤ n
  · rw [if_pos hn, Nat.repr_eq_ofList_toDigits, String.toList_ofList]
    cases hds : Nat.toDigits 10 n.toNat with
    | nil => exact absurd hds Nat.toDigits_ne_nil
    | cons d ds =>
      have hdigit : d.isDigit = true :=
        Nat.isDigit_of_mem_toDigits (b := 10) (n := n.toNat) (by omega) (by omega) (by simp [hds])
      exact ⟨d, ds, rfl, by rw [hdigit, Bool.or_true]⟩
  · rw [if_neg hn, String.toList_append]
    exact ⟨'-', _, rfl, rfl⟩

theorem ofNumber_numberOf {s : Scalar} {n : Int} (h : s.Holds (.int n)) :
    s.ofNumber (numberOf n) = .ok (.int n) := by
  rw [numberOf]
  by_cases hn : 0 ≤ n
  · have hint : ((n.toNat : Nat) : Int) = n := Int.toNat_of_nonneg hn
    rw [if_pos hn]
    cases s with
    | u32 =>
      have hlt : n.toNat < Nat.pow 2 32 := by have := h.2; omega
      simp only [Scalar.ofNumber, if_pos hlt, hint]
    | i64 =>
      have hlt : n.toNat < Nat.pow 2 63 := by have := h.2; omega
      simp only [Scalar.ofNumber, if_pos hlt, hint]
    | _ => exact h.elim
  · rw [if_neg hn]
    cases s with
    | u32 => exact absurd h.1 hn
    | i64 => rfl
    | _ => exact h.elim

theorem moves_int {s : Scalar} (hs : s = .u32 ∨ s = .i64) {n : Int} (h : s.Holds (.int n))
    {text : List Char} (hends : Ends text) :
    Moves (scalar s) ((toString n).toList ++ text) text (.int n) := by
  have hlimit : Nat.pow 2 32 < Nat.pow 2 63 := by decide
  have hrange : -Nat.pow 2 63 ≤ n ∧ n < Nat.pow 2 63 := by
    obtain rfl | rfl := hs
    · obtain ⟨hfrom, hto⟩ := h
      constructor <;> omega
    · exact h
  have hnumber := moves_number hrange.1 hrange.2 hends
  obtain ⟨x, ds, htext, hx⟩ := exists_toString n
  have hblank : isBlank x = false := by
    by_contra hblank
    rw [Bool.not_eq_false] at hblank
    have hchars : x = ' ' ∨ x = '\n' ∨ x = '\t' ∨ x = '\r' := by
      simpa [isBlank, or_assoc] using hblank
    obtain rfl | rfl | rfl | rfl := hchars <;> revert hx <;> decide
  rw [htext] at hnumber ⊢
  refine Moves.placed ((moves_peekToken hblank _).bind ?_)
  split
  · next hnone => cases hnone
  · obtain hs | hs := hs <;> cases hs
  · obtain hs | hs := hs <;> cases hs
  · obtain hs | hs := hs <;> cases hs
  · obtain hs | hs := hs <;> cases hs
  · obtain hs | hs := hs <;> cases hs
  · next heq =>
    cases heq
    rw [hx, if_pos rfl]
    refine hnumber.bind ?_
    rw [ofNumber_numberOf h]
    exact moves_pure _ _

/-- A plain value is read back. -/
theorem moves_scalar {s : Scalar} {j : Json} (h : s.Holds j) {text : List Char}
    (hends : Ends text) : Moves (scalar s) (j.compact.toList ++ text) text j := by
  cases s with
  | text =>
    cases j with
    | str value =>
      have hstring := moves_string value text
      rw [compact]
      rw [toList_quote] at hstring ⊢
      exact Moves.placed ((moves_peekToken rfl _).bind (hstring.bind (moves_pure _ _)))
    | _ => exact h.elim
  | truth =>
    cases j with
    | bool b =>
      have hword := moves_letters (boolText b).toList text
      rw [compact]
      cases b with
      | false => exact Moves.placed ((moves_peekToken rfl _).bind (hword.bind (moves_pure _ _)))
      | true => exact Moves.placed ((moves_peekToken rfl _).bind (hword.bind (moves_pure _ _)))
    | _ => exact h.elim
  | u32 =>
    cases j with
    | int n =>
      rw [compact]
      exact moves_int (.inl rfl) h hends
    | _ => exact h.elim
  | i64 =>
    cases j with
    | int n =>
      rw [compact]
      exact moves_int (.inr rfl) h hends
    | _ => exact h.elim
  | f64 => cases j <;> exact h.elim

end Reader

end SimCompiler.Json
