import SimCompiler.Json.Schema
import SimCompiler.Proofs.Lookup
import SimCompiler.Proofs.ScalarText

/-!
# Reading back documents

A document that fits a schema is written without blanks and with all fields in order. Reading that
text gives the document back, as long as it has fewer nested brackets than are allowed.
-/
namespace SimCompiler.Json

mutual

/-- How many brackets around a place in the value there are at most. -/
def nesting : Json → Nat
  | arr elements => nestingAll elements + 1
  | obj members => nestingMembers members + 1
  | _ => 0

def nestingAll : List Json → Nat
  | [] => 0
  | j :: js => max j.nesting (nestingAll js)

def nestingMembers : List (String × Json) → Nat
  | [] => 0
  | (_, j) :: members => max j.nesting (nestingMembers members)

end

theorem lt_nestingAll_iff {depth : Nat} {js : List Json} :
    depth < nestingAll js ↔ ∃ j ∈ js, depth < j.nesting := by
  induction js with
  | nil => simp [nestingAll]
  | cons j js ih =>
    have hmax : depth < max j.nesting (nestingAll js) ↔
        depth < j.nesting ∨ depth < nestingAll js := by omega
    rw [nestingAll, hmax, ih, List.exists_mem_cons_iff]

theorem nesting_le_nestingAll {js : List Json} {j : Json} (hj : j ∈ js) :
    j.nesting ≤ nestingAll js := by
  by_contra h
  exact Nat.lt_irrefl _ (lt_nestingAll_iff.mpr ⟨j, hj, Nat.lt_of_not_le h⟩)

theorem nestingMembers_eq_nestingAll (members : List (String × Json)) :
    nestingMembers members = nestingAll (members.map Prod.snd) := by
  induction members with
  | nil => rfl
  | cons m members ih => rw [nestingMembers, ih, List.map_cons, nestingAll]

mutual

/-- The value is a node of the given kind, with all fields present and in order, and no doubles in
it. -/
inductive Schema.Fits {κ : Type} (schema : Schema κ) : κ → Json → Prop
  | record {kind : κ} {name : String} {fields : List (String × Field κ)}
      {members : List (String × Json)} (shape : schema kind = .record name fields)
      (all : FitsAll schema fields members) : Fits schema kind (.obj members)
  | choice {kind kind' : κ} {variants : List (String × κ)} {name : String} {j : Json}
      (shape : schema kind = .choice variants) (variant : variants.lookup name = some kind')
      (node : Fits schema kind' j) : Fits schema kind (.obj [(name, j)])

/-- The value is what the field of a record holds. -/
inductive Schema.FitsField {κ : Type} (schema : Schema κ) : Field κ → Json → Prop
  | scalar {kind : Scalar} {j : Json} (holds : kind.Holds j) : FitsField schema (.scalar kind) j
  | node {kind : κ} {j : Json} (node : Fits schema kind j) : FitsField schema (.node kind) j
  | absent (kind : κ) : FitsField schema (.optional kind) .null
  | present {kind : κ} {j : Json} (node : Fits schema kind j) :
      FitsField schema (.optional kind) j
  | list {kind : κ} {js : List Json} (nodes : ∀ j ∈ js, Fits schema kind j) :
      FitsField schema (.list kind) (.arr js)

/-- The members are the fields of a record in order. -/
inductive Schema.FitsAll {κ : Type} (schema : Schema κ) :
    List (String × Field κ) → List (String × Json) → Prop
  | nil : FitsAll schema [] []
  | cons {name : String} {field : Field κ} {j : Json} {fields : List (String × Field κ)}
      {members : List (String × Json)} (first : FitsField schema field j)
      (rest : FitsAll schema fields members) :
      FitsAll schema ((name, field) :: fields) ((name, j) :: members)

end

/-- The fields of a record have different names. -/
def Schema.Distinct (schema : Schema κ) : Prop :=
  ∀ kind name fields, schema kind = .record name fields → (fields.map Prod.fst).Nodup

namespace Schema

variable {κ : Type} {schema : Schema κ}

/-- Every node is written as an object. -/
theorem Fits.exists_members {kind : κ} {j : Json} (h : schema.Fits kind j) :
    ∃ members, j = .obj members := by
  cases h with
  | record => exact ⟨_, rfl⟩
  | choice => exact ⟨_, rfl⟩

theorem FitsAll.names {fields : List (String × Field κ)} {members : List (String × Json)}
    (h : schema.FitsAll fields members) : members.map Prod.fst = fields.map Prod.fst := by
  induction fields generalizing members with
  | nil =>
    cases h
    rfl
  | cons field fields ih =>
    cases h with
    | cons first rest => rw [List.map_cons, List.map_cons, ih rest]

theorem FitsAll.exists_field {fields : List (String × Field κ)} {members : List (String × Json)}
    (h : schema.FitsAll fields members) {m : String × Json} (hm : m ∈ members) :
    ∃ field, (m.1, field) ∈ fields ∧ schema.FitsField field m.2 := by
  induction fields generalizing members with
  | nil =>
    cases h
    cases hm
  | cons field fields ih =>
    cases h with
    | cons first rest =>
      rcases List.mem_cons.mp hm with rfl | hm
      · exact ⟨_, List.mem_cons_self, first⟩
      · obtain ⟨field, hfield, hfits⟩ := ih rest hm
        exact ⟨field, List.mem_cons_of_mem _ hfield, hfits⟩

end Schema

/-! ### The text of lists and objects -/

/-- The text of a member of an object. -/
def memberText (m : String × Json) : List Char :=
  (quote m.1).toList ++ ':' :: m.2.compact.toList

/-- What stands in front of a part: nothing if it is the first one. -/
def separator (first : Bool) : List Char := if first then [] else [',']

/-- Parts one after the other, each behind its separator. -/
def joined (first : Bool) : List (List Char) → List Char
  | [] => []
  | part :: parts => separator first ++ (part ++ joined false parts)

theorem intercalate_cons (part : List Char) (parts : List (List Char)) :
    [','].intercalate (part :: parts) = part ++ joined false parts := by
  induction parts generalizing part with
  | nil => simp [joined]
  | cons part' parts ih =>
    rw [List.intercalate_cons_cons, ih, joined, List.append_assoc]
    rfl

theorem intercalate_eq_joined (parts : List (List Char)) :
    [','].intercalate parts = joined true parts := by
  cases parts with
  | nil => rfl
  | cons part parts => exact intercalate_cons part parts

theorem length_le_joined (parts : List (List Char)) :
    parts.length ≤ (joined false parts).length := by
  induction parts with
  | nil => simp
  | cons part parts ih =>
    rw [joined, List.length_append, List.length_append, List.length_cons]
    have hseparator : (separator false).length = 1 := rfl
    omega

theorem compactAll_eq_map (js : List Json) : compactAll js = js.map compact := by
  induction js with
  | nil => rfl
  | cons j js ih => rw [compactAll, ih, List.map_cons]

theorem map_toList_compactMembers (members : List (String × Json)) :
    (compactFields members).map String.toList = members.map memberText := by
  induction members with
  | nil => rfl
  | cons m members ih =>
    have hcolon : ":".toList = [':'] := rfl
    rw [compactFields, List.map_cons, List.map_cons, ih, memberText, String.toList_append,
      String.toList_append, hcolon, List.append_assoc, List.singleton_append]

theorem toList_compact_obj (members : List (String × Json)) :
    (obj members).compact.toList =
      '\x7b' :: (joined true (members.map memberText) ++ ['\x7d']) := by
  rw [compact, String.toList_append, String.toList_append, String.toList_intercalate,
    map_toList_compactMembers, ← intercalate_eq_joined]
  rfl

theorem toList_compact_arr (js : List Json) :
    (arr js).compact.toList = '[' :: (joined true (js.map (·.compact.toList)) ++ [']']) := by
  rw [compact, String.toList_append, String.toList_append, String.toList_intercalate,
    compactAll_eq_map, List.map_map, ← intercalate_eq_joined]
  rfl

namespace Reader

/-- Reads `j` from its text, wherever the text ends. -/
def Reads (r : Reader Json) (j : Json) : Prop :=
  ∀ text, Ends text → Moves r (j.compact.toList ++ text) text j

theorem ends_nil : Ends [] := by
  intro c hc
  cases hc

theorem ends_bracket (text : List Char) : Ends (']' :: text) := by
  intro c hc
  exact .inr (.inl (Option.some.inj hc).symm)

theorem ends_brace (text : List Char) : Ends ('\x7d' :: text) := by
  intro c hc
  exact .inr (.inr (Option.some.inj hc).symm)

/-- More parts begin with a comma. -/
theorem Ends.joined {text : List Char} (h : Ends text) (parts : List (List Char)) :
    Ends (joined false parts ++ text) := by
  cases parts with
  | nil => exact h
  | cons part parts =>
    intro c hc
    exact .inl (Option.some.inj hc).symm

theorem moves_openBracket {depth : Nat} (h : 1 < depth) (c : Char) (text : List Char) :
    Moves (openBracket depth) (c :: text) text () := by
  rw [openBracket, if_neg (by omega)]
  exact moves_skip c text

/-- Where there are more rounds than text, there are more rounds than parts. -/
theorem length_lt_rounds {parts : List (List Char)} {c : Char} {text : List Char} {n : Nat}
    (h : (Json.joined true parts ++ c :: text).length < n) : parts.length < n := by
  cases parts with
  | nil => simpa using Nat.zero_lt_of_lt h
  | cons part parts =>
    have hlength := length_le_joined parts
    rw [Json.joined] at h
    simp only [List.length_append, List.length_cons] at h ⊢
    omega

/-! ### Lists -/

section Elements

variable {element : Reader Json}

theorem moves_nextElement_end (first : Bool) (text : List Char) :
    Moves (nextElement first) (']' :: text) (']' :: text) false :=
  (moves_peekToken rfl _).bind (moves_pure _ _)

theorem moves_nextElement (first : Bool) {j : Json} (hobj : ∃ members, j = .obj members)
    (text : List Char) :
    Moves (nextElement first) (separator first ++ (j.compact.toList ++ text))
      (j.compact.toList ++ text) true := by
  obtain ⟨members, rfl⟩ := hobj
  rw [toList_compact_obj]
  cases first with
  | true => exact (moves_peekToken rfl _).bind (moves_pure _ _)
  | false =>
    exact (moves_peekToken rfl _).bind
      ((moves_skip _ _).bind ((moves_peekToken rfl _).bind (moves_pure _ _)))

theorem moves_elements {js : List Json} (hread : ∀ j ∈ js, Reads element j)
    (hobj : ∀ j ∈ js, ∃ members, j = .obj members) {n : Nat} (hn : js.length < n) (first : Bool)
    (text : List Char) :
    Moves (elements element n first)
      (joined first (js.map (·.compact.toList)) ++ ']' :: text) (']' :: text) js := by
  induction js generalizing n first with
  | nil =>
    obtain ⟨n, rfl⟩ : ∃ k, n = k + 1 := ⟨n - 1, by omega⟩
    exact (moves_nextElement_end first text).bind (moves_pure _ _)
  | cons j js ih =>
    rw [List.length_cons] at hn
    obtain ⟨n, rfl⟩ : ∃ k, n = k + 1 := ⟨n - 1, by omega⟩
    rw [List.forall_mem_cons] at hread hobj
    rw [List.map_cons, joined, List.append_assoc, List.append_assoc]
    refine (moves_nextElement first hobj.1 _).bind ((hread.1 _ ((ends_bracket _).joined _)).bind ?_)
    exact (ih hread.2 hobj.2 (by omega) false).bind (moves_pure _ _)

theorem reads_list {depth : Nat} (hdepth : 1 < depth) {js : List Json}
    (hread : ∀ j ∈ js, Reads element j) (hobj : ∀ j ∈ js, ∃ members, j = .obj members) :
    Reads (list depth element) (.arr js) := by
  intro text _
  rw [toList_compact_arr, List.cons_append, List.append_assoc, List.singleton_append]
  have hinside : Moves (do elements element (← rounds) true)
      (joined true (js.map (·.compact.toList)) ++ ']' :: text) (']' :: text) js :=
    moves_rounds_bind fun n hn =>
      moves_elements hread hobj (by simpa using length_lt_rounds hn) true text
  have hclose : Moves closeList (']' :: text) text () :=
    (moves_peekToken rfl _).bind (moves_skip _ _)
  exact Moves.placed ((moves_peekToken rfl _).bind ((moves_openBracket hdepth _ _).bind
    ((hinside.enclosed hclose).bind (moves_pure _ _))))

end Elements

/-! ### Objects -/

theorem moves_colon (text : List Char) : Moves colon (':' :: text) text () :=
  (moves_peekToken rfl _).bind (moves_skip _ _)

section Members

variable {κ : Type} {value : Field κ → Reader Json} {fields : List (String × Field κ)}

theorem moves_nextKey_end (first : Bool) (text : List Char) :
    Moves (nextKey first) ('\x7d' :: text) ('\x7d' :: text) false :=
  (moves_peekToken rfl _).bind (moves_pure _ _)

theorem moves_nextKey (first : Bool) (m : String × Json) (text : List Char) :
    Moves (nextKey first) (separator first ++ (memberText m ++ text)) (memberText m ++ text)
      true := by
  rw [memberText, toList_quote]
  cases first with
  | true => exact (moves_peekToken rfl _).bind (moves_pure _ _)
  | false =>
    exact (moves_peekToken rfl _).bind
      ((moves_skip _ _).bind ((moves_peekToken rfl _).bind (moves_pure _ _)))

/-- A key that comes later has not been seen. -/
theorem lookup_seen {seen todo : List (String × Json)} {m : String × Json}
    (hnodup : ((seen ++ m :: todo).map Prod.fst).Nodup) : seen.lookup m.1 = none := by
  rw [← Option.not_isSome_iff_eq_none, lookup_isSome_iff]
  rintro ⟨j, hj⟩
  rw [List.map_append, List.nodup_append] at hnodup
  exact hnodup.2.2 m.1 (List.mem_map.mpr ⟨(m.1, j), hj, rfl⟩) m.1 (by simp) rfl

theorem moves_members {todo : List (String × Json)} (seen : List (String × Json))
    (hread : ∀ m ∈ todo, ∃ field, fields.lookup m.1 = some field ∧ Reads (value field) m.2)
    (hnodup : ((seen ++ todo).map Prod.fst).Nodup) {n : Nat} (hn : todo.length < n) (first : Bool)
    (text : List Char) :
    Moves (members value fields n first seen)
      (joined first (todo.map memberText) ++ '\x7d' :: text) ('\x7d' :: text) (seen ++ todo) := by
  induction todo generalizing n seen first with
  | nil =>
    obtain ⟨n, rfl⟩ : ∃ k, n = k + 1 := ⟨n - 1, by omega⟩
    rw [List.append_nil]
    exact (moves_nextKey_end first text).bind (moves_pure _ _)
  | cons m todo ih =>
    rw [List.length_cons] at hn
    obtain ⟨n, rfl⟩ : ∃ k, n = k + 1 := ⟨n - 1, by omega⟩
    rw [List.forall_mem_cons] at hread
    obtain ⟨field, hfield, hvalue⟩ := hread.1
    have hnew := lookup_seen hnodup
    have hassoc : seen ++ m :: todo = seen ++ [m] ++ todo := by simp
    rw [hassoc] at hnodup ⊢
    have hrest := ih (seen ++ [m]) hread.2 hnodup (by omega : todo.length < n) false
    rw [List.map_cons, joined, List.append_assoc, List.append_assoc]
    refine (moves_nextKey first m _).bind ?_
    rw [memberText, List.append_assoc, List.cons_append]
    refine (moves_string m.1 _).bind ?_
    rw [hfield, hnew]
    exact (moves_colon _).bind ((hvalue _ ((ends_brace _).joined _)).bind hrest)

/-- All fields have been seen, in their order. -/
theorem moves_complete {seen members : List (String × Json)} {fields : List (String × Field κ)}
    (hnames : members.map Prod.fst = fields.map Prod.fst)
    (hseen : ∀ m ∈ members, seen.lookup m.1 = some m.2) (text : List Char) :
    Moves (complete seen fields) text text members := by
  induction fields generalizing members with
  | nil =>
    obtain rfl : members = [] := by simpa using hnames
    exact moves_pure _ _
  | cons field fields ih =>
    cases members with
    | nil => cases hnames
    | cons m members =>
      rw [List.map_cons, List.map_cons, List.cons.injEq] at hnames
      rw [List.forall_mem_cons, hnames.1] at hseen
      have hvalue : Moves (seenValue seen field.1 field.2) text text m.2 := by
        unfold seenValue
        rw [hseen.1]
        exact moves_pure _ _
      refine hvalue.bind ((ih hnames.2 hseen.2).bind ?_)
      rw [← hnames.1]
      exact moves_pure _ _

theorem reads_record {depth : Nat} (hdepth : 1 < depth) {name : String}
    {fields : List (String × Field κ)} (hdistinct : (fields.map Prod.fst).Nodup)
    {members : List (String × Json)} (hnames : members.map Prod.fst = fields.map Prod.fst)
    (hread : ∀ m ∈ members, ∃ field, (m.1, field) ∈ fields ∧ Reads (value field) m.2) :
    Reads (record depth value name fields) (.obj members) := by
  intro text _
  rw [toList_compact_obj, List.cons_append, List.append_assoc, List.singleton_append]
  have hnodup : (members.map Prod.fst).Nodup := by rwa [hnames]
  have hlookup : ∀ m ∈ members, ∃ field, fields.lookup m.1 = some field ∧
      Reads (value field) m.2 := by
    intro m hm
    obtain ⟨field, hfield, hvalue⟩ := hread m hm
    exact ⟨field, (lookup_eq_some_iff_mem hdistinct).mpr hfield, hvalue⟩
  have hinside : Moves (do complete (← Reader.members value fields (← rounds) true []) fields)
      (joined true (members.map memberText) ++ '\x7d' :: text) ('\x7d' :: text) members :=
    moves_rounds_bind fun n hn =>
      (moves_members [] hlookup hnodup (by simpa using length_lt_rounds hn) true text).bind
        (moves_complete hnames (fun m hm => (lookup_eq_some_iff_mem hnodup).mpr hm) _)
  have hclose : Moves closeObject ('\x7d' :: text) text () :=
    (moves_peekToken rfl _).bind (moves_skip _ _)
  exact Moves.placed ((moves_peekToken rfl _).bind ((moves_openBracket hdepth _ _).bind
    ((hinside.enclosed hclose).bind (moves_pure _ _))))

theorem toList_compact_choice (name : String) (j : Json) (text : List Char) :
    (obj [(name, j)]).compact.toList ++ text =
      '\x7b' :: ((quote name).toList ++ ':' :: (j.compact.toList ++ '\x7d' :: text)) := by
  rw [toList_compact_obj]
  simp [joined, separator, memberText]

theorem moves_variantName {variants : List (String × κ)} {name : String} {kind : κ}
    (hvariant : variants.lookup name = some kind) (text : List Char) :
    Moves (variantName variants) ((quote name).toList ++ text) text (name, kind) := by
  refine Moves.placed ((moves_string name _).bind ?_)
  rw [hvariant]
  exact moves_pure _ _

theorem reads_choice {depth : Nat} (hdepth : 1 < depth) {node : NodeReader κ}
    {variants : List (String × κ)} {name : String} {kind : κ}
    (hvariant : variants.lookup name = some kind) {j : Json} (hread : Reads (node kind) j) :
    Reads (choice depth node variants) (.obj [(name, j)]) := by
  intro text _
  rw [toList_compact_choice]
  have hinside : Moves (variant node variants)
      ((quote name).toList ++ ':' :: (j.compact.toList ++ '\x7d' :: text)) ('\x7d' :: text)
      (.obj [(name, j)]) := by
    have hname := moves_variantName hvariant (':' :: (j.compact.toList ++ '\x7d' :: text))
    rw [toList_quote] at hname ⊢
    exact (moves_peekToken rfl _).bind (hname.bind ((moves_colon _).bind
      ((hread _ (ends_brace _)).bind (moves_pure _ _))))
  exact (moves_peekToken rfl _).bind ((moves_openBracket hdepth _ _).bind (hinside.bind
    ((moves_peekToken rfl _).bind ((moves_skip _ _).bind (moves_pure _ _)))))

end Members

/-- The value of a field is read back if the nodes inside it are. -/
theorem reads_field {κ : Type} {schema : Schema κ} {depth : Nat} {node element : NodeReader κ}
    {f : Field κ} {j : Json} (hfits : schema.FitsField f j) (hnesting : j.nesting < depth)
    (hnode : ∀ kind j, schema.Fits kind j → j.nesting < depth → Reads (node kind) j)
    (helement : ∀ kind j, schema.Fits kind j → j.nesting + 1 < depth → Reads (element kind) j) :
    Reads (field depth node element f) j := by
  cases hfits with
  | scalar hholds => exact fun text hends => moves_scalar hholds hends
  | node hfits => exact hnode _ _ hfits hnesting
  | absent kind =>
    intro text _
    exact (moves_peekToken rfl _).bind ((moves_letters "null".toList text).bind (moves_pure _ _))
  | present hfits =>
    intro text hends
    have hread := hnode _ _ hfits hnesting text hends
    obtain ⟨members, rfl⟩ := hfits.exists_members
    rw [toList_compact_obj] at hread ⊢
    exact (moves_peekToken rfl _).bind hread
  | list hfits =>
    rw [nesting] at hnesting
    refine reads_list (by omega) (fun j hj => ?_) fun j hj => (hfits j hj).exists_members
    have hle := nesting_le_nestingAll hj
    exact helement _ j (hfits j hj) (by omega)

/-- A document is read back at every level of nesting that leaves room for its own brackets. -/
theorem reads_node {κ : Type} {schema : Schema κ} (hdistinct : schema.Distinct) (depth : Nat) :
    ∀ kind j, schema.Fits kind j → j.nesting < depth → Reads (node schema depth kind) j := by
  induction depth using Nat.strongRecOn with
  | ind depth ih =>
    intro kind j hfits hnesting
    -- A node has a bracket of its own, so there is room for two levels.
    obtain ⟨depth, rfl⟩ : ∃ k, depth = k + 2 := by
      obtain ⟨members, rfl⟩ := hfits.exists_members
      rw [nesting] at hnesting
      exact ⟨depth - 2, by omega⟩
    change Reads (shape (depth + 2) (node schema (depth + 1)) (node schema depth) (schema kind)) j
    cases hfits with
    | record hshape hall =>
      rw [hshape]
      refine reads_record (by omega) (hdistinct kind _ _ hshape) hall.names fun m hm => ?_
      obtain ⟨field, hfield, hfits⟩ := hall.exists_field hm
      refine ⟨field, hfield, ?_⟩
      have hle := nesting_le_nestingAll (List.mem_map_of_mem (f := Prod.snd) hm)
      rw [nesting, nestingMembers_eq_nestingAll] at hnesting
      exact reads_field hfits (by omega) (fun kind j hfits hlt => ih _ (by omega) kind j hfits hlt)
        fun kind j hfits hlt => ih depth (by omega) kind j hfits (by omega)
    | choice hshape hvariant hfits =>
      rw [hshape]
      rw [nesting, nestingMembers] at hnesting
      exact reads_choice (by omega) hvariant (ih _ (by omega) _ _ hfits (by omega))

end Reader

/-- Reading the text of a document that fits the schema gives the document. -/
theorem Schema.read_compact {κ : Type} {schema : Schema κ} (hdistinct : schema.Distinct)
    {kind : κ} {j : Json} (hfits : schema.Fits kind j) {depth : Nat} (hdepth : j.nesting < depth) :
    schema.read depth kind j.compact = .ok j := by
  have hnode := Reader.reads_node hdistinct depth kind j hfits hdepth [] Reader.ends_nil
  rw [List.append_nil] at hnode
  have hfinish : Reader.Moves Reader.finish [] [] () :=
    Reader.moves_peekToken_nil.bind (Reader.moves_pure () [])
  have hdocument : Reader.Moves (Reader.document schema depth kind) j.compact.toList [] j :=
    hnode.bind (hfinish.bind (Reader.moves_pure j []))
  obtain ⟨-, offset, hrun⟩ := hdocument.placed 0 j.compact.length
    (Nat.le_of_eq String.length_toList)
  rw [Schema.read, Cursor.ofString, hrun]

end SimCompiler.Json
