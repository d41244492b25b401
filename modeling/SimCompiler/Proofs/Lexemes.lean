import SimCompiler.Proofs.ClosedOutput

/-!
# Words and literals of the target text

A string literal ends at its first quote that is not escaped. Names, types and numbers are words:
they end where the first character follows that no word contains. So each of them can be told from
the text behind it, and a name can be told from its spelling.
-/
namespace SimCompiler.Target

/-! ### String literals -/

/-- The character that a backslash and the given one stand for. -/
def unescape? : Char → Option Char
  | '"' => some '"'
  | '\\' => some '\\'
  | 'n' => some '\n'
  | 't' => some '\t'
  | 'r' => some '\r'
  | _ => none

/-- Reads a literal behind its opening quote: its characters, and the text behind the quote that
ends it. -/
def readQuoted? : List Char → Option (List Char × List Char)
  | [] => none
  | '"' :: rest => some ([], rest)
  | '\\' :: [] => none
  | '\\' :: c :: rest => do
    let c ← unescape? c
    (readQuoted? rest).map (Prod.map (c :: ·) id)
  | '\n' :: _ => none
  | c :: rest => (readQuoted? rest).map (Prod.map (c :: ·) id)

/-- What may stand between the quotes of a literal, and the characters it stands for. -/
inductive Quoted : List Char → List Char → Prop
  | nil : Quoted [] []
  | plain {c : Char} {body s : List Char} (hquote : c ≠ '"') (hslash : c ≠ '\\')
      (hnewline : c ≠ '\n') (h : Quoted body s) : Quoted (c :: body) (c :: s)
  | escape {code c : Char} {body s : List Char} (hcode : unescape? code = some c)
      (h : Quoted body s) : Quoted ('\\' :: code :: body) (c :: s)

theorem Quoted.escapeChar_append {body s : List Char} (h : Quoted body s) (c : Char) :
    Quoted (escapeChar c ++ body) (c :: s) := by
  unfold escapeChar
  split
  case h_6 hquote hslash hnewline _ _ => exact .plain hquote hslash hnewline h
  all_goals exact .escape rfl h

theorem quoted_escaped (s : List Char) : Quoted (s.flatMap escapeChar) s := by
  induction s with
  | nil => exact .nil
  | cons c s ih =>
    rw [List.flatMap_cons]
    exact ih.escapeChar_append c

/-- What stands between the quotes is read as what it stands for, whatever follows. -/
theorem Quoted.readQuoted? {body s : List Char} (h : Quoted body s) (rest : List Char) :
    readQuoted? (body ++ '"' :: rest) = some (s, rest) := by
  induction h with
  | nil => rfl
  | plain hquote hslash hnewline _ ih =>
    rw [List.cons_append, Target.readQuoted?, ih]
    · rfl
    · exact hquote
    · exact fun h => absurd h hslash
    · exact fun _ _ h => absurd h hslash
    · exact hnewline
  | escape hcode _ ih =>
    rw [List.cons_append, List.cons_append, Target.readQuoted?, hcode, ih]
    rfl

/-- Nothing but a literal is read. -/
theorem exists_quoted_of_readQuoted? {text s rest : List Char}
    (h : readQuoted? text = some (s, rest)) :
    ∃ body, text = body ++ '"' :: rest ∧ Quoted body s := by
  fun_induction readQuoted? text generalizing s with
  | case1 | case3 | case5 => cases h
  | case2 =>
    cases h
    exact ⟨[], rfl, .nil⟩
  | case4 code text ih =>
    obtain ⟨c, hcode, hmap⟩ := Option.bind_eq_some_iff.mp h
    obtain ⟨⟨s', rest'⟩, hread, heq⟩ := Option.map_eq_some_iff.mp hmap
    cases heq
    obtain ⟨body, rfl, hbody⟩ := ih hread
    exact ⟨'\\' :: code :: body, rfl, .escape hcode hbody⟩
  | case6 c text hquote hlone hslash hnewline ih =>
    have hne : c ≠ '\\' := by
      intro hc
      cases text with
      | nil => exact hlone hc rfl
      | cons => exact hslash _ _ hc rfl
    obtain ⟨⟨s', rest'⟩, hread, heq⟩ := Option.map_eq_some_iff.mp h
    cases heq
    obtain ⟨body, rfl, hbody⟩ := ih hread
    exact ⟨c :: body, rfl, .plain hquote hne hnewline hbody⟩

/-- Nothing but the literal itself starts a text with a literal. -/
theorem quote_append_inj {s s' : String} {r r' : List Char}
    (h : (quote s).toList ++ r = (quote s').toList ++ r') : s = s' ∧ r = r' := by
  simp only [quote, String.toList_append, String.toList_ofList, List.append_assoc,
    List.append_cancel_left_eq] at h
  have hread := ((quoted_escaped s.toList).readQuoted? r).symm.trans
    ((congrArg readQuoted? h).trans ((quoted_escaped s'.toList).readQuoted? r'))
  simpa [String.toList_inj] using hread

/-- The text is a literal for the string. -/
def IsLiteral (text s : String) : Prop :=
  ∃ body, text.toList = '"' :: (body ++ ['"']) ∧ Quoted body s.toList

theorem isLiteral_quote (s : String) : IsLiteral (quote s) s := by
  refine ⟨s.toList.flatMap escapeChar, ?_, quoted_escaped s.toList⟩
  simp [quote]

/-- Reads the literal that a text starts with: its string, and the text behind it. -/
def readLiteral? (text : String) : Option (String × String) :=
  match text.toList with
  | '"' :: rest => (readQuoted? rest).map (Prod.map String.ofList String.ofList)
  | _ => none

theorem IsLiteral.readLiteral?_append {literal s : String} (h : IsLiteral literal s)
    (rest : String) : readLiteral? (literal ++ rest) = some (s, rest) := by
  obtain ⟨body, hliteral, hbody⟩ := h
  have htext : (literal ++ rest).toList = '"' :: (body ++ '"' :: rest.toList) := by
    simp [hliteral]
  rw [readLiteral?, htext]
  simp [hbody.readQuoted?]

theorem exists_isLiteral_of_readLiteral? {text s rest : String}
    (h : readLiteral? text = some (s, rest)) :
    ∃ literal, IsLiteral literal s ∧ text = literal ++ rest := by
  rw [readLiteral?] at h
  split at h
  next behind htext =>
    obtain ⟨⟨s', rest'⟩, hread, heq⟩ := Option.map_eq_some_iff.mp h
    cases heq
    obtain ⟨body, rfl, hbody⟩ := exists_quoted_of_readQuoted? hread
    refine ⟨String.ofList ('"' :: (body ++ ['"'])), ⟨body, by simp, by simpa using hbody⟩, ?_⟩
    simp [← String.toList_inj, htext]
  next => cases h

/-- The reader takes exactly the literals off the front of a text. So it takes a quoted string off
whatever follows, and gives the string back. -/
theorem readLiteral?_quote_append (s r : String) :
    readLiteral? (quote s ++ r) = some (s, r) ∧
      ∀ text t rest, readLiteral? text = some (t, rest) ↔
        ∃ literal, IsLiteral literal t ∧ text = literal ++ rest := by
  refine ⟨(isLiteral_quote s).readLiteral?_append r, fun text t rest => ⟨?_, ?_⟩⟩
  · exact exists_isLiteral_of_readLiteral?
  · rintro ⟨literal, hliteral, rfl⟩
    exact hliteral.readLiteral?_append rest

/-! ### Words -/

/-- The characters of names, types and numbers. -/
def isWordChar (c : Char) : Bool := c.isAlphanum || c == '_' || c == ':' || c == '-'

/-- No character of the kind `p` comes next. -/
def Breaks (p : Char → Bool) (rest : List Char) : Prop := ∀ c ∈ rest.head?, p c = false

theorem Breaks.of_head? {p : Char → Bool} {rest : List Char} {c : Char}
    (h : rest.head? = some c) (hc : p c = false) : Breaks p rest := by
  intro d hd
  rwa [← Option.some.inj (h.symm.trans hd)]

theorem Breaks.dropWhile_append {p : Char → Bool} {w rest : List Char} (h : Breaks p rest)
    (hw : w.all p = true) : (w ++ rest).dropWhile p = rest := by
  rw [List.dropWhile_append_of_pos (List.all_eq_true.mp hw)]
  cases rest with
  | nil => rfl
  | cons c rest => rw [List.dropWhile_cons_of_neg (by simpa using h c rfl)]

/-- Texts that start with characters of one kind and then break agree in where they break. -/
theorem Breaks.append_inj {p : Char → Bool} {w w' r r' : List Char} (hr : Breaks p r)
    (hr' : Breaks p r') (hw : w.all p = true) (hw' : w'.all p = true)
    (h : w ++ r = w' ++ r') : w = w' ∧ r = r' := by
  have hrest : r = r' := by rw [← hr.dropWhile_append hw, h, hr'.dropWhile_append hw']
  subst hrest
  exact ⟨List.append_cancel_right h, rfl⟩

/-- A text of word characters, and at least one of them. -/
structure IsWord (text : String) : Prop where
  ne_nil : text.toList ≠ []
  all : text.toList.all isWordChar = true

theorem IsWord.append_inj {w w' : String} (hw : IsWord w) (hw' : IsWord w') {r r' : List Char}
    (hr : Breaks isWordChar r) (hr' : Breaks isWordChar r')
    (h : w.toList ++ r = w'.toList ++ r') : w = w' ∧ r = r' := by
  obtain ⟨htext, hrest⟩ := hr.append_inj hr' hw.all hw'.all h
  exact ⟨String.toList_inj.mp htext, hrest⟩

theorem IsWord.head? {w : String} (h : IsWord w) : ∃ c ∈ w.toList.head?, isWordChar c = true := by
  cases hw : w.toList with
  | nil => exact absurd hw h.ne_nil
  | cons c cs => exact ⟨c, rfl, List.all_eq_true.mp h.all c (by simp [hw])⟩

theorem isWord_append {w w' : String} (hw : IsWord w) (hw' : IsWord w') : IsWord (w ++ w') := by
  constructor
  · simp [hw.ne_nil]
  · rw [String.toList_append, List.all_append, hw.all, hw'.all, Bool.and_self]

theorem isWord_of_isIdentifier {name : String} (h : isIdentifier name = true) : IsWord name := by
  rw [isIdentifier] at h
  cases hname : name.toList with
  | nil => simp [hname] at h
  | cons c cs =>
    rw [hname, Bool.and_eq_true, List.all_eq_true] at h
    refine ⟨by simp [hname], List.all_eq_true.mpr fun d hd => ?_⟩
    rw [hname] at hd
    rcases List.mem_cons.mp hd with rfl | hd
    · have hd := h.1
      simp only [isWordChar, Char.isAlphanum, Bool.or_eq_true] at hd ⊢
      tauto
    · have hd := h.2 d hd
      simp only [isWordChar, Bool.or_eq_true] at hd ⊢
      tauto

theorem isWord_mangle {name : String} (h : isIdentifier name = true) : IsWord (mangle name) :=
  isWord_append ⟨by decide, by decide⟩ (isWord_of_isIdentifier h)

theorem isWord_repr (n : Nat) : IsWord n.repr := by
  rw [Nat.repr_eq_ofList_toDigits]
  refine ⟨by simp [Nat.toDigits_ne_nil], List.all_eq_true.mpr fun c hc => ?_⟩
  rw [String.toList_ofList] at hc
  simp [isWordChar, Char.isAlphanum, Nat.isDigit_of_mem_toDigits (by omega) (by omega) hc]

theorem isWord_intRepr (n : Int) : IsWord n.repr := by
  rw [Int.repr_eq_if]
  split
  · exact isWord_repr _
  · exact isWord_append ⟨by decide, by decide⟩ (isWord_repr _)

theorem head?_repr (n : Nat) : ∃ c ∈ n.repr.toList.head?, c.isDigit = true := by
  rw [Nat.repr_eq_ofList_toDigits, String.toList_ofList]
  cases hdigits : Nat.toDigits 10 n with
  | nil => exact absurd hdigits Nat.toDigits_ne_nil
  | cons c cs =>
    have hc : c ∈ Nat.toDigits 10 n := by simp [hdigits]
    exact ⟨c, rfl, Nat.isDigit_of_mem_toDigits (by omega) (by omega) hc⟩

/-- A number starts with a digit or its sign. -/
theorem head?_intRepr (n : Int) : ∃ c ∈ n.repr.toList.head?, c.isDigit = true ∨ c = '-' := by
  rw [Int.repr_eq_if]
  split
  · obtain ⟨c, hc, hdigit⟩ := head?_repr n.toNat
    exact ⟨c, hc, .inl hdigit⟩
  · exact ⟨'-', by simp, .inr rfl⟩

theorem repr_ne_minus (n : Nat) (text : String) : n.repr ≠ "-" ++ text := by
  intro h
  obtain ⟨c, hc, hdigit⟩ := head?_repr n
  rw [h, String.toList_append] at hc
  cases hc
  cases hdigit

theorem intRepr_injective : Function.Injective Int.repr := by
  intro m n h
  rw [Int.repr_eq_if, Int.repr_eq_if] at h
  split at h <;> split at h
  · have heq := repr_injective h
    omega
  · exact absurd h (repr_ne_minus _ _)
  · exact absurd h.symm (repr_ne_minus _ _)
  · have heq := repr_injective ((String.append_right_inj _).mp h)
    omega

/-! ### Names -/

theorem mem_natives {name text : String} (h : nativeName? name = some text) :
    (name, text) ∈ natives :=
  (lookup_eq_some_iff_mem (by decide)).mp h

/-- How references to what has the name are spelled: as the target language does it, or by the name
itself, behind its enumeration if it is a constant. -/
inductive Spells (name : String) : String → Prop
  | native {text : String} (h : nativeName? name = some text) : Spells name text
  | own (h : isIdentifier name = true) : Spells name (mangle name)
  | constant {enumName : String} (henum : isIdentifier enumName = true)
      (h : isIdentifier name = true) : Spells name (mangle enumName ++ "::" ++ mangle name)

theorem Spells.isWord {name text : String} (h : Spells name text) : IsWord text := by
  have hnatives : ∀ x ∈ natives, x.2.toList ≠ [] ∧ x.2.toList.all isWordChar = true := by
    decide
  cases h with
  | native h =>
    obtain ⟨hne, hall⟩ := hnatives _ (mem_natives h)
    exact ⟨hne, hall⟩
  | own h => exact isWord_mangle h
  | constant henum h =>
    exact isWord_append (isWord_append (isWord_mangle henum) ⟨by decide, by decide⟩)
      (isWord_mangle h)

theorem head?_of_mem_natives :
    ∀ x ∈ natives, x.2.toList.head? = some 's' ∨ x.2.toList.head? = some 'C' := by
  decide

theorem toList_mangle (name : String) : (mangle name).toList = '_' :: name.toList := by
  rw [mangle, String.toList_append]
  rfl

/-- What follows the last colon. -/
def lastPart (text : String) : List Char := (text.toList.reverse.takeWhile (· != ':')).reverse

theorem takeWhile_reverse_mangle {name : String} (h : isIdentifier name = true)
    (rest : List Char) : ((mangle name).toList.reverse ++ rest).takeWhile (· != ':') =
      (mangle name).toList.reverse ++ rest.takeWhile (· != ':') := by
  apply List.takeWhile_append_of_pos
  intro c hc
  rw [List.mem_reverse, toList_mangle] at hc
  rcases List.mem_cons.mp hc with rfl | hc
  · decide
  · exact bne_iff_ne.mpr fun heq => not_mem_of_isIdentifier h (heq ▸ hc)

theorem lastPart_mangle {name : String} (h : isIdentifier name = true) :
    lastPart (mangle name) = '_' :: name.toList := by
  have hlast := takeWhile_reverse_mangle h []
  rw [List.append_nil, List.takeWhile_nil, List.append_nil] at hlast
  rw [lastPart, hlast, List.reverse_reverse, toList_mangle]

theorem lastPart_append_mangle {name : String} (h : isIdentifier name = true) (scope : String) :
    lastPart (scope ++ "::" ++ mangle name) = '_' :: name.toList := by
  have hcolon : (scope ++ "::").toList.reverse.takeWhile (· != ':') = [] := by simp
  rw [lastPart, String.toList_append, List.reverse_append, takeWhile_reverse_mangle h, hcolon,
    List.append_nil, List.reverse_reverse, toList_mangle]

/-- The name that a reference was written for: a built-in one, or what follows the last colon, less
the underscore. -/
def nameOf (text : String) : String :=
  match natives.find? (·.2 == text) with
  | some x => x.1
  | none => String.ofList (lastPart text).tail

theorem find?_natives_eq_none (text : String) (h : text.toList.head? = some '_') :
    natives.find? (·.2 == text) = none := by
  rw [List.find?_eq_none]
  intro x hx heq
  have hhead := head?_of_mem_natives x hx
  rw [eq_of_beq heq, h] at hhead
  simp at hhead

/-- A name can be told from its spelling. -/
theorem Spells.nameOf_eq {name text : String} (h : Spells name text) : nameOf text = name := by
  have hnatives : ∀ x ∈ natives, natives.find? (·.2 == x.2) = some x := by decide
  cases h with
  | native h => rw [nameOf, hnatives _ (mem_natives h)]
  | own h =>
    have hnone := find?_natives_eq_none (mangle name) (by simp [toList_mangle])
    rw [nameOf, hnone]
    simp only [lastPart_mangle h, List.tail_cons, String.ofList_toList]
  | @constant enumName henum h =>
    have hnone := find?_natives_eq_none (mangle enumName ++ "::" ++ mangle name)
      (by simp [toList_mangle])
    rw [nameOf, hnone]
    simp only [lastPart_append_mangle h, List.tail_cons, String.ofList_toList]

/-- A name starts with an underscore, or as the target language spells it. -/
theorem Spells.head? {name text : String} (h : Spells name text) :
    ∃ c ∈ text.toList.head?, c = '_' ∨ c = 's' ∨ c = 'C' := by
  cases h with
  | native h =>
    rcases head?_of_mem_natives _ (mem_natives h) with hhead | hhead
    · exact ⟨'s', hhead, by simp⟩
    · exact ⟨'C', hhead, by simp⟩
  | own h => exact ⟨'_', by simp [toList_mangle], .inl rfl⟩
  | constant henum h => exact ⟨'_', by simp [toList_mangle], .inl rfl⟩

end SimCompiler.Target
