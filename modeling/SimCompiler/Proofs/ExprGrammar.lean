import SimCompiler.Proofs.Lexemes

/-!
# The grammar of expression texts

The texts of expressions follow a grammar of nine rules. The first characters of a text tell the
rule that built it, and each part of it ends where a character follows that cannot go on with it. So
a text in front of a closing character has been written for one expression only, up to positions
that leave no trace.
-/
namespace SimCompiler

open Target

/-- The expressions are the same, but their nodes may stand elsewhere, except for accesses to
schema-less values, and the types that such accesses ask for may be others with the same text. -/
inductive Generator.Alike (g : Generator) : Expr → Expr → Prop
  | bool (p q : Position) (b : Bool) : Alike g (.bool p b) (.bool q b)
  | int (p q : Position) (n : Int64) : Alike g (.int p n) (.int q n)
  | float (p q : Position) (x : Float) : Alike g (.float p x) (.float q x)
  | str (p q : Position) (s : String) : Alike g (.str p s) (.str q s)
  | ref {r r' : Ref} (h : r.name = r'.name) : Alike g (.ref r) (.ref r')
  | unary (p q : Position) (op : String) {e e' : Expr} (h : Alike g e e') :
      Alike g (.unary p op e) (.unary q op e')
  | binary (p q : Position) (op : String) {l l' r r' : Expr} (hl : Alike g l l')
      (hr : Alike g r r') : Alike g (.binary p l op r) (.binary q l' op r')
  | call (p q : Position) {f f' : Ref} {args args' : List Expr} (hname : f.name = f'.name)
      (h : List.Forall₂ (Alike g) args args') : Alike g (.call p f args) (.call q f' args')
  | json (p : Position) {r r' : Ref} {indices indices' : List Expr} {t t' : TypeRef}
      (hname : r.name = r'.name) (h : List.Forall₂ (Alike g) indices indices')
      (htype : g.typeCode t = g.typeCode t') :
      Alike g (.json p r indices t) (.json p r' indices' t')

/-! ### The grammar -/

/-- The rules: words of three kinds, literals in quotes, one or two operands in parentheses, powers
and other calls, and accesses to schema-less values. -/
inductive TextRule where
  | truth | number | name | quoted | signed | paired | power | applied | access
deriving DecidableEq, Repr

namespace TextRule

/-- The rule of a word by its first character. -/
def ofHead (head : Option Char) : TextRule :=
  if head = some 't' ∨ head = some 'f' then .truth
  else if head.any fun c => c.isDigit || c == '-' then .number
  else .name

/-- The rule that built the expression at the start of a text. -/
def ofText (text : List Char) : TextRule :=
  let rest := text.dropWhile isWordChar
  if text.head? = some '"' then .quoted
  else if text.head? = some '[' then .access
  else if text.head? = some '(' then if text[2]? = some '(' then .paired else .signed
  else if rest.head? = some '(' then if rest[1]? = some ' ' then .power else .applied
  else ofHead text.head?

theorem ofText_word {word : String} (h : IsWord word) {rest : List Char}
    (hrest : Breaks isWordChar rest) :
    ofText (word.toList ++ rest) =
      if rest.head? = some '(' then if rest[1]? = some ' ' then .power else .applied
      else ofHead word.toList.head? := by
  have hhead : (word.toList ++ rest).head? = word.toList.head? := by
    rw [List.head?_append_of_ne_nil _ h.ne_nil]
  have hword : ∀ c, isWordChar c = false → word.toList.head? ≠ some c := by
    intro c hc heq
    rw [List.all_eq_true.mp h.all c (List.mem_of_mem_head? heq)] at hc
    cases hc
  rw [ofText, hrest.dropWhile_append h.all, hhead, if_neg (hword _ (by decide)),
    if_neg (hword _ (by decide)), if_neg (hword _ (by decide))]

end TextRule

namespace Generator

variable (g : Generator)

mutual

/-- The texts of expressions by the rule that builds them. -/
inductive Spelled : TextRule → Expr → String → Prop
  | truth (p : Position) (b : Bool) : Spelled .truth (.bool p b) (if b then "true" else "false")
  | number (p : Position) (n : Int64) : Spelled .number (.int p n) (toString n.toInt)
  | name {r : Ref} {text : String} (h : Spells r.name text) : Spelled .name (.ref r) text
  | quoted (p : Position) (s : String) : Spelled .quoted (.str p s) (quote s)
  | signed (p : Position) {k : TextRule} {op : String} {e : Expr} {text : String}
      (hop : op = "-" ∨ op = "not") (h : Spelled k e text) :
      Spelled .signed (.unary p op e) ("( " ++ op ++ " (" ++ text ++ ") )")
  | paired (p : Position) {k k' : TextRule} {op : String} {l r : Expr} {left right : String}
      (hop : OperatorClass.ofSymbol? op ≠ none) (hl : Spelled k l left) (hr : Spelled k' r right) :
      Spelled .paired (.binary p l op r) ("( (" ++ left ++ ") " ++ op ++ " (" ++ right ++ ") )")
  | power (p : Position) {k k' : TextRule} {l r : Expr} {left right : String}
      (hl : Spelled k l left) (hr : Spelled k' r right) :
      Spelled .power (.binary p l "**" r) ("std::pow( (" ++ left ++ "), (" ++ right ++ ") )")
  | applied (p : Position) {f : Ref} {callee : String} {args : List Expr} {texts : List String}
      (hf : Spells f.name callee) (h : SpelledAll args texts) :
      Spelled .applied (.call p f args) (callee ++ "(" ++ ", ".intercalate texts ++ ")")
  | access (p : Position) {r : Ref} {root type : String} {indices : List Expr} {target : TypeRef}
      {texts : List String} (hroot : Spells r.name root) (h : SpelledAll indices texts)
      (htype : g.typeCode target = .ok type) (hword : IsWord type) :
      Spelled .access (.json p r indices target)
        (jsonAccessCode (root ++ String.join (texts.map fun i => "[" ++ i ++ "]")) type p)

inductive SpelledAll : List Expr → List String → Prop
  | nil : SpelledAll [] []
  | cons {k : TextRule} {e : Expr} {es : List Expr} {text : String} {texts : List String}
      (h : Spelled k e text) (hs : SpelledAll es texts) : SpelledAll (e :: es) (text :: texts)

end

variable {g}

/-- The characters behind the parts of an expression. -/
def isCloser (c : Char) : Bool := c == ')' || c == ',' || c == ']'

/-- What may follow the text of an expression. -/
def Stops (rest : List Char) : Prop := ∀ c ∈ rest.head?, isCloser c = true

theorem Stops.of_head? {rest : List Char} {c : Char} (h : rest.head? = some c)
    (hc : isCloser c = true) : Stops rest := by
  intro d hd
  rwa [← Option.some.inj (h.symm.trans hd)]

theorem Stops.breaks {rest : List Char} (h : Stops rest) : Breaks isWordChar rest := by
  intro c hc
  have hcloser := h c hc
  simp only [isCloser, Bool.or_eq_true, beq_iff_eq] at hcloser
  rcases hcloser with (rfl | rfl) | rfl <;> decide

theorem Stops.head?_ne {rest : List Char} (h : Stops rest) : rest.head? ≠ some '(' := by
  intro heq
  cases h _ heq

theorem isWord_truth (b : Bool) : IsWord (if b then "true" else "false") := by
  cases b <;> exact ⟨by decide, by decide⟩

theorem head?_jsonAccessCode (access type : String) (p : Position) (rest : List Char) :
    ((jsonAccessCode access type p).toList ++ rest).head? = some '[' := by
  unfold jsonAccessCode
  simp only [String.toList_append, List.append_assoc]
  rfl

/-- No text of an expression starts with a blank or a closing parenthesis. -/
theorem Spelled.head? {k : TextRule} {e : Expr} {text : String} (h : g.Spelled k e text) :
    ∃ c ∈ text.toList.head?, c ≠ ' ' ∧ c ≠ ')' := by
  have hword : ∀ {word : String}, IsWord word →
      ∃ c ∈ word.toList.head?, c ≠ ' ' ∧ c ≠ ')' := by
    intro word h
    obtain ⟨c, hc, hchar⟩ := h.head?
    refine ⟨c, hc, ?_, ?_⟩ <;> rintro rfl <;> cases hchar
  cases h with
  | truth p b => exact hword (isWord_truth b)
  | number p n =>
    rw [Int.toString_eq_repr]
    exact hword (isWord_intRepr _)
  | name h => exact hword h.isWord
  | quoted p s => exact ⟨'"', by simp [quote], by decide⟩
  | signed | paired => exact ⟨'(', by simp, by decide⟩
  | power => exact ⟨'s', by simp, by decide⟩
  | applied p hf =>
    obtain ⟨c, hc, hne⟩ := hword hf.isWord
    exact ⟨c, by simp [Option.mem_def.mp hc], hne⟩
  | access => exact ⟨'[', by simpa using head?_jsonAccessCode _ _ _ [], by decide⟩

/-- Texts one after the other, each between an opening text that starts with `c` and a closing
text. -/
def bracketed (c : Char) (opening closing : List Char) (texts : List String) : List Char :=
  texts.flatMap fun t => c :: (opening ++ t.toList ++ closing)

theorem bracketed_cons (c : Char) (opening closing : List Char) (text : String)
    (texts : List String) : bracketed c opening closing (text :: texts) =
      c :: (opening ++ (text.toList ++ (closing ++ bracketed c opening closing texts))) := by
  simp [bracketed]

theorem toList_intercalate (text : String) (texts : List String) :
    (", ".intercalate (text :: texts)).toList = text.toList ++ bracketed ',' [' '] [] texts := by
  rw [String.toList_intercalate]
  induction texts generalizing text with
  | nil => simp [bracketed]
  | cons text' texts ih =>
    rw [List.map_cons, List.map_cons, List.intercalate_cons_cons, ← List.map_cons, ih,
      bracketed_cons]
    simp

theorem comma_intercalate (text : String) (texts : List String) :
    ',' :: ' ' :: (", ".intercalate (text :: texts)).toList =
      bracketed ',' [' '] [] (text :: texts) := by
  rw [toList_intercalate, bracketed_cons]
  rfl

theorem toList_join (texts : List String) :
    (String.join (texts.map fun i => "[" ++ i ++ "]")).toList = bracketed '[' [] [']'] texts := by
  rw [String.toList_join, List.flatMap_map, bracketed]
  simp

theorem Spelled.head?_intercalate {k : TextRule} {e : Expr} {text : String}
    (h : g.Spelled k e text) (texts : List String) (rest : List Char) :
    ∃ c ∈ ((", ".intercalate (text :: texts)).toList ++ rest).head?, c ≠ ' ' ∧ c ≠ ')' := by
  obtain ⟨c, hc, hne⟩ := h.head?
  refine ⟨c, ?_, hne⟩
  rw [toList_intercalate]
  simp [Option.mem_def.mp hc]

theorem SpelledAll.head?_ne {args : List Expr} {texts : List String} (h : g.SpelledAll args texts)
    (rest : List Char) : ((", ".intercalate texts).toList ++ ')' :: rest).head? ≠ some ' ' := by
  cases h with
  | nil => simp
  | cons h hs =>
    obtain ⟨c, hc, hne, -⟩ := h.head?_intercalate _ (')' :: rest)
    rw [Option.mem_def.mp hc]
    exact fun heq => hne (Option.some.inj heq)

/-- The first characters of a text tell the rule that built it. -/
theorem Spelled.ofText_eq {k : TextRule} {e : Expr} {text : String} (h : g.Spelled k e text)
    {rest : List Char} (hrest : Stops rest) : TextRule.ofText (text.toList ++ rest) = k := by
  cases h with
  | truth p b =>
    rw [TextRule.ofText_word (isWord_truth b) hrest.breaks, if_neg hrest.head?_ne]
    cases b <;> rfl
  | number p n =>
    rw [Int.toString_eq_repr, TextRule.ofText_word (isWord_intRepr _) hrest.breaks,
      if_neg hrest.head?_ne]
    obtain ⟨c, hc, hdigit⟩ := head?_intRepr n.toInt
    rw [Option.mem_def.mp hc]
    have hnumber : (c.isDigit || c == '-') = true := by simpa using hdigit
    have htruth : ¬ (some c = some 't' ∨ some c = some 'f') := by
      rintro (heq | heq) <;> cases heq <;> cases hnumber
    rw [TextRule.ofHead, if_neg htruth, Option.any_some, if_pos hnumber]
  | name h =>
    rw [TextRule.ofText_word h.isWord hrest.breaks, if_neg hrest.head?_ne]
    obtain ⟨c, hc, hname⟩ := h.head?
    rw [Option.mem_def.mp hc]
    rcases hname with rfl | rfl | rfl <;> rfl
  | quoted p s => simp [TextRule.ofText, quote]
  | signed p hop h => rcases hop with rfl | rfl <;> simp [TextRule.ofText]
  | paired => simp [TextRule.ofText]
  | @power p k k' l r left right hl hr =>
    have hword : IsWord "std::pow" := ⟨by decide, by decide⟩
    have hsplit : ("std::pow( (" ++ left ++ "), (" ++ right ++ ") )").toList ++ rest =
        "std::pow".toList ++ '(' :: ' ' :: ("(" ++ left ++ "), (" ++ right ++ ") )").toList ++
          rest := by
      simp
    rw [hsplit, List.append_assoc, TextRule.ofText_word hword (.of_head? rfl rfl)]
    rfl
  | @applied p f callee args texts hf h =>
    rw [String.toList_append, String.toList_append, String.toList_append, List.append_assoc,
      List.append_assoc, List.append_assoc, TextRule.ofText_word hf.isWord (.of_head? rfl rfl)]
    refine (if_pos rfl).trans (if_neg fun hblank => ?_)
    exact h.head?_ne rest (List.head?_eq_getElem?.trans hblank)
  | access => rw [TextRule.ofText, head?_jsonAccessCode, if_neg (by decide), if_pos rfl]

/-! ### One expression for each text -/

theorem not_blank_of_sign {op : String} (h : op = "-" ∨ op = "not") :
    op.toList.all (· != ' ') = true := by
  rcases h with rfl | rfl <;> decide

theorem not_blank_of_symbol {op : String} (h : OperatorClass.ofSymbol? op ≠ none) :
    op.toList.all (· != ' ') = true := by
  unfold OperatorClass.ofSymbol? at h
  split at h
  case h_15 => exact absurd rfl h
  all_goals decide

variable (g) in
/-- If a text starts with one of `e` and with one of another expression, then the two expressions
are alike, and the text goes on in the same way behind them. -/
def Unique (e : Expr) : Prop :=
  ∀ {k k' : TextRule} {e' : Expr} {text text' : String} {r r' : List Char}, g.Spelled k e text →
    g.Spelled k' e' text' → Stops r → Stops r' → text.toList ++ r = text'.toList ++ r' →
      g.Alike e e' ∧ r = r'

theorem Spelled.rule_eq {k k' : TextRule} {e e' : Expr} {text text' : String} {r r' : List Char}
    (h : g.Spelled k e text) (h' : g.Spelled k' e' text') (hr : Stops r) (hr' : Stops r')
    (heq : text.toList ++ r = text'.toList ++ r') : k = k' := by
  rw [← h.ofText_eq hr, heq, h'.ofText_eq hr']

theorem unique_bool (p : Position) (b : Bool) : g.Unique (.bool p b) := by
  intro k k' e' text text' r r' h h' hr hr' heq
  obtain rfl := h.rule_eq h' hr hr' heq
  cases h
  cases h' with
  | truth q b' =>
    obtain ⟨hb, hrest⟩ := (isWord_truth b).append_inj (isWord_truth b') hr.breaks hr'.breaks heq
    obtain rfl : b = b' := by
      revert hb
      cases b <;> cases b' <;> decide
    exact ⟨.bool p q b, hrest⟩

theorem unique_int (p : Position) (n : Int64) : g.Unique (.int p n) := by
  intro k k' e' text text' r r' h h' hr hr' heq
  obtain rfl := h.rule_eq h' hr hr' heq
  cases h
  cases h' with
  | number q n' =>
    rw [Int.toString_eq_repr, Int.toString_eq_repr] at heq
    obtain ⟨hn, hrest⟩ :=
      (isWord_intRepr _).append_inj (isWord_intRepr _) hr.breaks hr'.breaks heq
    obtain rfl := Int64.toInt_inj.mp (intRepr_injective hn)
    exact ⟨.int p q n, hrest⟩

theorem unique_ref (r : Ref) : g.Unique (.ref r) := by
  intro k k' e' text text' s s' h h' hs hs' heq
  obtain rfl := h.rule_eq h' hs hs' heq
  cases h with
  | name h =>
    cases h' with
    | name h' =>
      obtain ⟨rfl, hrest⟩ := h.isWord.append_inj h'.isWord hs.breaks hs'.breaks heq
      exact ⟨.ref (h.nameOf_eq.symm.trans h'.nameOf_eq), hrest⟩

theorem unique_str (p : Position) (s : String) : g.Unique (.str p s) := by
  intro k k' e' text text' r r' h h' hr hr' heq
  obtain rfl := h.rule_eq h' hr hr' heq
  cases h
  cases h' with
  | quoted q s' =>
    obtain ⟨rfl, hrest⟩ := quote_append_inj heq
    exact ⟨.str p q s, hrest⟩

theorem unique_unary (p : Position) (op : String) {e : Expr} (ih : g.Unique e) :
    g.Unique (.unary p op e) := by
  intro k k' e' text text' r r' h h' hr hr' heq
  obtain rfl := h.rule_eq h' hr hr' heq
  cases h with
  | signed _ hop h =>
    cases h' with
    | signed q hop' h' =>
      simp only [String.toList_append, List.append_assoc, List.append_cancel_left_eq] at heq
      obtain ⟨hsign, hrest⟩ := Breaks.append_inj (.of_head? rfl rfl) (.of_head? rfl rfl)
        (not_blank_of_sign hop) (not_blank_of_sign hop') heq
      obtain rfl := String.toList_inj.mp hsign
      obtain ⟨he, hrest⟩ := ih h h' (.of_head? rfl rfl) (.of_head? rfl rfl)
        (List.append_cancel_left hrest)
      exact ⟨.unary p q op he, List.append_cancel_left hrest⟩

theorem unique_binary (p : Position) (op : String) {l r : Expr} (ihl : g.Unique l)
    (ihr : g.Unique r) : g.Unique (.binary p l op r) := by
  intro k k' e' text text' s s' h h' hs hs' heq
  obtain rfl := h.rule_eq h' hs hs' heq
  cases h with
  | paired _ hop hl hr =>
    cases h' with
    | paired q hop' hl' hr' =>
      simp only [String.toList_append, List.append_assoc, List.append_cancel_left_eq] at heq
      obtain ⟨hleft, hrest⟩ := ihl hl hl' (.of_head? rfl rfl) (.of_head? rfl rfl) heq
      obtain ⟨hsymbol, htail⟩ := Breaks.append_inj (.of_head? rfl rfl) (.of_head? rfl rfl)
        (not_blank_of_symbol hop) (not_blank_of_symbol hop') (List.append_cancel_left hrest)
      obtain rfl := String.toList_inj.mp hsymbol
      obtain ⟨hright, hrest⟩ := ihr hr hr' (.of_head? rfl rfl) (.of_head? rfl rfl)
        (List.append_cancel_left htail)
      exact ⟨.binary p q op hleft hright, List.append_cancel_left hrest⟩
  | power _ hl hr =>
    cases h' with
    | power q hl' hr' =>
      simp only [String.toList_append, List.append_assoc, List.append_cancel_left_eq] at heq
      obtain ⟨hleft, hrest⟩ := ihl hl hl' (.of_head? rfl rfl) (.of_head? rfl rfl) heq
      obtain ⟨hright, hrest⟩ := ihr hr hr' (.of_head? rfl rfl) (.of_head? rfl rfl)
        (List.append_cancel_left hrest)
      exact ⟨.binary p q _ hleft hright, List.append_cancel_left hrest⟩

/-- Bracketed texts in front of a text that opens no further bracket. -/
theorem unique_all {es es' : List Expr} (ih : ∀ e ∈ es, g.Unique e) {texts texts' : List String}
    (h : g.SpelledAll es texts) (h' : g.SpelledAll es' texts') {c : Char}
    {opening closing r r' : List Char} (hnext : ∀ rest, Stops (closing ++ c :: rest))
    (hr : Breaks (· == c) r) (hr' : Breaks (· == c) r') (hend : Stops (closing ++ r))
    (hend' : Stops (closing ++ r'))
    (heq : bracketed c opening closing texts ++ r = bracketed c opening closing texts' ++ r') :
    List.Forall₂ g.Alike es es' ∧ r = r' := by
  have hstops : ∀ (texts : List String) (r : List Char), Stops (closing ++ r) →
      Stops (closing ++ (bracketed c opening closing texts ++ r)) := by
    intro texts r hr
    cases texts with
    | nil => exact hr
    | cons text texts => exact hnext _
  induction es generalizing es' texts texts' with
  | nil =>
    cases h
    cases h' with
    | nil => exact ⟨.nil, heq⟩
    | cons => simpa using hr c (congrArg List.head? heq)
  | cons e es ihes =>
    cases h with
    | cons he hes =>
      cases h' with
      | nil => simpa using hr' c (congrArg List.head? heq.symm)
      | cons he' hes' =>
        simp only [bracketed_cons, List.cons_append, List.append_assoc, List.cons.injEq, true_and,
          List.append_cancel_left_eq] at heq
        obtain ⟨hfirst, htail⟩ := ih e (by simp) he he' (hstops _ _ hend) (hstops _ _ hend') heq
        obtain ⟨hothers, hrest⟩ := ihes (fun e he => ih e (by simp [he])) hes hes'
          (List.append_cancel_left htail)
        exact ⟨.cons hfirst hothers, hrest⟩

/-- Arguments end with the parenthesis behind them. -/
theorem unique_args {es es' : List Expr} (ih : ∀ e ∈ es, g.Unique e) {texts texts' : List String}
    (h : g.SpelledAll es texts) (h' : g.SpelledAll es' texts') {r r' : List Char}
    (heq : (", ".intercalate texts).toList ++ ')' :: r =
      (", ".intercalate texts').toList ++ ')' :: r') : List.Forall₂ g.Alike es es' ∧ r = r' := by
  cases h with
  | nil =>
    cases h' with
    | nil => exact ⟨.nil, (List.cons.inj heq).2⟩
    | cons he' hes' =>
      obtain ⟨c, hc, -, hne⟩ := he'.head?_intercalate _ (')' :: r')
      rw [← heq] at hc
      exact absurd (Option.some.inj hc).symm hne
  | cons he hes =>
    cases h' with
    | nil =>
      obtain ⟨c, hc, -, hne⟩ := he.head?_intercalate _ (')' :: r)
      rw [heq] at hc
      exact absurd (Option.some.inj hc).symm hne
    | cons he' hes' =>
      -- With a comma in front of it, the first argument is one like the others.
      have hcomma := congrArg (',' :: ' ' :: ·) heq
      simp only [← List.cons_append, comma_intercalate] at hcomma
      obtain ⟨hall, hrest⟩ := unique_all ih (.cons he hes) (.cons he' hes')
        (fun rest => .of_head? rfl rfl) (.of_head? rfl rfl) (.of_head? rfl rfl)
        (.of_head? rfl rfl) (.of_head? rfl rfl) hcomma
      exact ⟨hall, (List.cons.inj hrest).2⟩

theorem unique_call (p : Position) (f : Ref) {args : List Expr} (ih : ∀ e ∈ args, g.Unique e) :
    g.Unique (.call p f args) := by
  intro k k' e' text text' r r' h h' hr hr' heq
  obtain rfl := h.rule_eq h' hr hr' heq
  cases h with
  | applied _ hf hargs =>
    cases h' with
    | applied q hf' hargs' =>
      simp only [String.toList_append, List.append_assoc] at heq
      obtain ⟨rfl, htail⟩ :=
        hf.isWord.append_inj hf'.isWord (.of_head? rfl rfl) (.of_head? rfl rfl) heq
      obtain ⟨hall, hrest⟩ := unique_args ih hargs hargs' (List.append_cancel_left htail)
      exact ⟨.call p q (hf.nameOf_eq.symm.trans hf'.nameOf_eq) hall, hrest⟩

/-- The position of an access can be told from its text. -/
theorem position_inj {p q : Position} {r r' : List Char} (hr : Breaks isWordChar r)
    (hr' : Breaks isWordChar r')
    (h : (quote p.file).toList ++ (", ".toList ++ ((toString p.line.toNat).toList ++
        (", ".toList ++ ((toString p.column.toNat).toList ++ r)))) =
      (quote q.file).toList ++ (", ".toList ++ ((toString q.line.toNat).toList ++
        (", ".toList ++ ((toString q.column.toNat).toList ++ r'))))) : p = q ∧ r = r' := by
  obtain ⟨hfile, htail⟩ := quote_append_inj h
  obtain ⟨hline, htail⟩ := (isWord_repr _).append_inj (isWord_repr _) (.of_head? rfl rfl)
    (.of_head? rfl rfl) (List.append_cancel_left htail)
  obtain ⟨hcolumn, hrest⟩ := (isWord_repr _).append_inj (isWord_repr _) hr hr'
    (List.append_cancel_left htail)
  replace hline := UInt32.toNat_inj.mp (repr_injective hline)
  replace hcolumn := UInt32.toNat_inj.mp (repr_injective hcolumn)
  refine ⟨?_, hrest⟩
  cases p
  cases hfile
  cases hline
  cases hcolumn
  rfl

/-- The value that is accessed ends with the first index, or with the dot behind the indices. -/
theorem breaks_indices (texts : List String) {rest : List Char} (h : rest.head? = some '.') :
    Breaks isWordChar (bracketed '[' [] [']'] texts ++ rest) := by
  cases texts with
  | nil => exact .of_head? h rfl
  | cons text texts => exact .of_head? rfl rfl

theorem unique_json (p : Position) (root : Ref) {indices : List Expr} (target : TypeRef)
    (ih : ∀ e ∈ indices, g.Unique e) : g.Unique (.json p root indices target) := by
  intro k k' e' text text' r r' h h' hr hr' heq
  obtain rfl := h.rule_eq h' hr hr' heq
  cases h with
  | access _ hroot hindices htype hword =>
    cases h' with
    | access q hroot' hindices' htype' hword' =>
      unfold jsonAccessCode at heq
      simp only [String.toList_append, List.append_assoc, List.append_cancel_left_eq,
        toList_join] at heq
      obtain ⟨rfl, hlist⟩ := hroot.isWord.append_inj hroot'.isWord (breaks_indices _ rfl)
        (breaks_indices _ rfl) heq
      obtain ⟨hall, htarget⟩ := unique_all ih hindices hindices' (fun rest => .of_head? rfl rfl)
        (.of_head? rfl rfl) (.of_head? rfl rfl) (.of_head? rfl rfl) (.of_head? rfl rfl) hlist
      obtain ⟨rfl, hplace⟩ := hword.append_inj hword' (.of_head? rfl rfl) (.of_head? rfl rfl)
        (List.append_cancel_left htarget)
      simp only [List.append_cancel_left_eq] at hplace
      obtain ⟨rfl, hrest⟩ := position_inj (.of_head? rfl rfl) (.of_head? rfl rfl) hplace
      refine ⟨.json p (hroot.nameOf_eq.symm.trans hroot'.nameOf_eq) hall ?_, ?_⟩
      · rw [htype, htype']
      · exact List.append_cancel_left hrest

theorem unique (e : Expr) : g.Unique e := by
  induction e using Expr.induction with
  | bool p b => exact unique_bool p b
  | int p n => exact unique_int p n
  | float p x =>
    -- No rule builds the text of a double.
    intro k k' e' text text' r r' h
    cases h
  | str p s => exact unique_str p s
  | ref r => exact unique_ref r
  | unary p op e ih => exact unique_unary p op ih
  | binary p l op r ihl ihr => exact unique_binary p op ihl ihr
  | call p f args ih => exact unique_call p f ih
  | json p r indices t ih => exact unique_json p r t ih

/-- A text was written for one expression. -/
theorem Spelled.alike {k k' : TextRule} {e e' : Expr} {text : String} (h : g.Spelled k e text)
    (h' : g.Spelled k' e' text) : g.Alike e e' := by
  have hend : Stops [] := by simp [Stops]
  exact (unique e h h' hend hend rfl).1

end Generator

end SimCompiler
