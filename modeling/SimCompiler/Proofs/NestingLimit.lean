import SimCompiler.Proofs.SchemaText

/-!
# The limit of nesting

A document that fits a schema but has too many nested brackets is not read: the reader gives up at
the first bracket too many, whatever stands behind it. Everything in front of that bracket is read
as in a document that is not nested too deeply.
-/
namespace SimCompiler.Json

/-- Plain values have no brackets. -/
theorem Scalar.Holds.nesting {kind : Scalar} {j : Json} (h : kind.Holds j) : j.nesting = 0 := by
  cases j with
  | arr elements => cases kind <;> cases h
  | obj members => cases kind <;> cases h
  | null | bool b | int n | float x | str s => rw [Json.nesting] <;> simp

namespace Reader

/-- Gives up because of too many nested brackets. -/
def Stops (r : Reader α) (before : List Char) : Prop :=
  ∀ offset bound, before.length ≤ bound → ∃ place c,
    r ⟨before, offset, bound⟩ = .error ⟨.grammar .nestedTooDeep, place⟩ c

/-- Gives up somewhere in the text of `j`, whatever follows it. -/
def Refuses (r : Reader Json) (j : Json) : Prop :=
  ∀ text, Ends text → Stops r (j.compact.toList ++ text)

theorem Stops.bind {r : Reader α} {f : α → Reader β} {before : List Char} (h : Stops r before) :
    Stops (r >>= f) before := by
  intro offset bound hbound
  obtain ⟨place, c, hr⟩ := h offset bound hbound
  refine ⟨place, c, ?_⟩
  change EStateM.bind r f _ = _
  rw [EStateM.bind, hr]

theorem Moves.stops_bind {r : Reader α} {f : α → Reader β} {before between : List Char} {a : α}
    (h : Moves r before between a) (hf : Stops (f a) between) : Stops (r >>= f) before := by
  intro offset bound hbound
  obtain ⟨hbetween, offset', hr⟩ := h offset bound hbound
  obtain ⟨place, c, hfa⟩ := hf offset' bound hbetween
  refine ⟨place, c, ?_⟩
  change EStateM.bind r f _ = _
  rw [EStateM.bind, hr]
  exact hfa

theorem Stops.placed {r : Reader α} {before : List Char} (h : Stops r before) :
    Stops (placed r) before := by
  intro offset bound hbound
  obtain ⟨place, c, hr⟩ := h offset bound hbound
  refine ⟨some (place.getD c.offset), c, ?_⟩
  rw [Reader.placed, hr]

/-- The closing bracket is looked for, but the problem stays the same. -/
theorem Stops.enclosed {inside : Reader α} {closing : Reader Unit} {before : List Char}
    (h : Stops inside before) : Stops (enclosed inside closing) before := by
  intro offset bound hbound
  obtain ⟨place, c, hinside⟩ := h offset bound hbound
  rw [Reader.enclosed, hinside]
  cases hclosing : closing c with
  | ok _ c' => exact ⟨place, c', by simp only [hclosing]⟩
  | error _ c' => exact ⟨place, c', by simp only [hclosing]⟩

theorem stops_rounds_bind {f : Nat → Reader α} {before : List Char}
    (h : ∀ n, before.length < n → Stops (f n) before) : Stops (rounds >>= f) before := by
  intro offset bound hbound
  exact h (bound + 1) (by omega) offset bound hbound

theorem stops_openBracket {depth : Nat} (h : depth ≤ 1) (text : List Char) :
    Stops (openBracket depth) text := by
  rw [openBracket, if_pos h]
  exact fun offset bound _ => ⟨_, _, rfl⟩

/-! ### Lists -/

section Elements

variable {element : Reader Json}

theorem stops_elements {js : List Json} (hread : ∀ j ∈ js, Reads element j ∨ Refuses element j)
    (hrefuse : ∃ j ∈ js, Refuses element j) (hobj : ∀ j ∈ js, ∃ members, j = .obj members)
    {n : Nat} (hn : js.length < n) (first : Bool) (text : List Char) :
    Stops (elements element n first)
      (joined first (js.map (·.compact.toList)) ++ ']' :: text) := by
  induction js generalizing n first with
  | nil => simp at hrefuse
  | cons j js ih =>
    rw [List.length_cons] at hn
    obtain ⟨n, rfl⟩ : ∃ k, n = k + 1 := ⟨n - 1, by omega⟩
    rw [List.forall_mem_cons] at hread hobj
    rw [List.exists_mem_cons_iff] at hrefuse
    rw [List.map_cons, joined, List.append_assoc, List.append_assoc]
    refine (moves_nextElement first hobj.1 _).stops_bind ?_
    have hends := (ends_bracket text).joined (js.map (·.compact.toList))
    by_cases hfirst : Refuses element j
    · exact (hfirst _ hends).bind
    · have hrest := ih hread.2 (hrefuse.resolve_left hfirst) hobj.2 (by omega : js.length < n) false
      exact (hread.1.resolve_right hfirst _ hends).stops_bind hrest.bind

theorem refuses_list {depth : Nat} {js : List Json}
    (hread : ∀ j ∈ js, Reads element j ∨ Refuses element j)
    (hrefuse : 1 < depth → ∃ j ∈ js, Refuses element j)
    (hobj : ∀ j ∈ js, ∃ members, j = .obj members) : Refuses (list depth element) (.arr js) := by
  intro text _
  rw [toList_compact_arr, List.cons_append, List.append_assoc, List.singleton_append]
  refine Stops.placed ((moves_peekToken rfl _).stops_bind ?_)
  by_cases hdepth : depth ≤ 1
  · exact (stops_openBracket hdepth _).bind
  · have hinside : Stops (do elements element (← rounds) true)
        (joined true (js.map (·.compact.toList)) ++ ']' :: text) :=
      stops_rounds_bind fun n hn => stops_elements hread (hrefuse (by omega)) hobj
        (by simpa using length_lt_rounds hn) true text
    exact (moves_openBracket (by omega) _ _).stops_bind hinside.enclosed.bind

end Elements

/-! ### Objects -/

section Members

variable {κ : Type} {value : Field κ → Reader Json} {fields : List (String × Field κ)}

theorem stops_members {todo : List (String × Json)} (seen : List (String × Json))
    (hread : ∀ m ∈ todo, ∃ field, fields.lookup m.1 = some field ∧
      (Reads (value field) m.2 ∨ Refuses (value field) m.2))
    (hrefuse : ∃ m ∈ todo, ∃ field, fields.lookup m.1 = some field ∧ Refuses (value field) m.2)
    (hnodup : ((seen ++ todo).map Prod.fst).Nodup) {n : Nat} (hn : todo.length < n) (first : Bool)
    (text : List Char) :
    Stops (members value fields n first seen)
      (joined first (todo.map memberText) ++ '\x7d' :: text) := by
  induction todo generalizing n seen first with
  | nil => simp at hrefuse
  | cons m todo ih =>
    rw [List.length_cons] at hn
    obtain ⟨n, rfl⟩ : ∃ k, n = k + 1 := ⟨n - 1, by omega⟩
    rw [List.forall_mem_cons] at hread
    rw [List.exists_mem_cons_iff] at hrefuse
    obtain ⟨field, hfield, hvalue⟩ := hread.1
    have hnew := lookup_seen hnodup
    rw [List.map_cons, joined, List.append_assoc, List.append_assoc]
    refine (moves_nextKey first m _).stops_bind ?_
    rw [memberText, List.append_assoc, List.cons_append]
    refine (moves_string m.1 _).stops_bind ?_
    rw [hfield, hnew]
    refine (moves_colon _).stops_bind ?_
    have hends := (ends_brace text).joined (todo.map memberText)
    by_cases hfirst : Refuses (value field) m.2
    · exact (hfirst _ hends).bind
    · have hlater : ¬∃ field, fields.lookup m.1 = some field ∧ Refuses (value field) m.2 := by
        rintro ⟨field', hfield', hrefuses⟩
        rw [hfield, Option.some.injEq] at hfield'
        exact hfirst (hfield' ▸ hrefuses)
      have hassoc : seen ++ m :: todo = seen ++ [m] ++ todo := by simp
      rw [hassoc] at hnodup
      have hrest := ih (seen ++ [m]) hread.2 (hrefuse.resolve_left hlater) hnodup
        (by omega : todo.length < n) false
      exact (hvalue.resolve_right hfirst _ hends).stops_bind hrest

theorem refuses_record {depth : Nat} (hdepth : 1 < depth) {name : String}
    {fields : List (String × Field κ)} (hdistinct : (fields.map Prod.fst).Nodup)
    {members : List (String × Json)} (hnames : members.map Prod.fst = fields.map Prod.fst)
    (hread : ∀ m ∈ members, ∃ field, (m.1, field) ∈ fields ∧
      (Reads (value field) m.2 ∨ Refuses (value field) m.2))
    (hrefuse : ∃ m ∈ members, ∃ field, (m.1, field) ∈ fields ∧ Refuses (value field) m.2) :
    Refuses (record depth value name fields) (.obj members) := by
  intro text _
  rw [toList_compact_obj, List.cons_append, List.append_assoc, List.singleton_append]
  have hnodup : (members.map Prod.fst).Nodup := by rwa [hnames]
  simp only [← lookup_eq_some_iff_mem hdistinct] at hread hrefuse
  have hinside : Stops (do complete (← Reader.members value fields (← rounds) true []) fields)
      (joined true (members.map memberText) ++ '\x7d' :: text) :=
    stops_rounds_bind fun n hn => (stops_members [] hread hrefuse hnodup
      (by simpa using length_lt_rounds hn) true text).bind
  exact Stops.placed ((moves_peekToken rfl _).stops_bind
    ((moves_openBracket hdepth _ _).stops_bind hinside.enclosed.bind))

theorem refuses_choice {depth : Nat} (hdepth : 1 < depth) {node : NodeReader κ}
    {variants : List (String × κ)} {name : String} {kind : κ}
    (hvariant : variants.lookup name = some kind) {j : Json} (hrefuse : Refuses (node kind) j) :
    Refuses (choice depth node variants) (.obj [(name, j)]) := by
  intro text _
  rw [toList_compact_choice]
  have hinside : Stops (variant node variants)
      ((quote name).toList ++ ':' :: (j.compact.toList ++ '\x7d' :: text)) := by
    have hname := moves_variantName hvariant (':' :: (j.compact.toList ++ '\x7d' :: text))
    rw [toList_quote] at hname ⊢
    exact (moves_peekToken rfl _).stops_bind (hname.stops_bind ((moves_colon _).stops_bind
      (hrefuse _ (ends_brace _)).bind))
  exact (moves_peekToken rfl _).stops_bind
    ((moves_openBracket hdepth _ _).stops_bind hinside.bind)

end Members

section Nodes

variable {κ : Type} {schema : Schema κ}

/-- Where no bracket may be opened, there is no node. -/
theorem refuses_shape {depth : Nat} (hdepth : depth ≤ 1) {node element : NodeReader κ} {kind : κ}
    {j : Json} (hfits : schema.Fits kind j) :
    Refuses (shape depth node element (schema kind)) j := by
  intro text _
  obtain ⟨members, rfl⟩ := hfits.exists_members
  rw [toList_compact_obj]
  cases hshape : schema kind with
  | record name fields =>
    exact Stops.placed ((moves_peekToken rfl _).stops_bind (stops_openBracket hdepth _).bind)
  | choice variants =>
    exact (moves_peekToken rfl _).stops_bind (stops_openBracket hdepth _).bind

theorem refuses_field {depth : Nat} (hpos : 0 < depth) {node element : NodeReader κ}
    {f : Field κ} {j : Json} (hfits : schema.FitsField f j) (hnesting : depth ≤ j.nesting)
    (hnode : ∀ kind j, schema.Fits kind j → depth ≤ j.nesting → Refuses (node kind) j)
    (hread : ∀ kind j, schema.Fits kind j → j.nesting + 1 < depth → Reads (element kind) j)
    (helement : ∀ kind j, schema.Fits kind j → depth ≤ j.nesting + 1 → Refuses (element kind) j) :
    Refuses (field depth node element f) j := by
  cases hfits with
  | scalar hholds =>
    rw [hholds.nesting] at hnesting
    omega
  | node hfits => exact hnode _ _ hfits hnesting
  | absent kind => exact absurd hnesting (Nat.not_le_of_lt hpos)
  | present hfits =>
    intro text hends
    have hrefuse := hnode _ _ hfits hnesting text hends
    obtain ⟨members, rfl⟩ := hfits.exists_members
    rw [toList_compact_obj] at hrefuse ⊢
    exact (moves_peekToken rfl _).stops_bind hrefuse
  | @list kind js hfits =>
    rw [nesting] at hnesting
    refine refuses_list (fun j hj => ?_) (fun hdepth => ?_) fun j hj => (hfits j hj).exists_members
    · rcases Nat.lt_or_ge (j.nesting + 1) depth with hlt | hge
      · exact .inl (hread _ j (hfits j hj) hlt)
      · exact .inr (helement _ j (hfits j hj) hge)
    · have hlt : depth - 2 < nestingAll js := by omega
      obtain ⟨j, hj, hlt⟩ := lt_nestingAll_iff.mp hlt
      exact ⟨j, hj, helement _ j (hfits j hj) (by omega)⟩

/-- A document is refused at every level of nesting that leaves no room for its own brackets. -/
theorem refuses_node (hdistinct : schema.Distinct) (depth : Nat) :
    ∀ kind j, schema.Fits kind j → depth ≤ j.nesting → Refuses (node schema depth kind) j := by
  induction depth using Nat.strongRecOn with
  | ind depth ih =>
    intro kind j hfits hnesting
    rcases depth with _ | _ | depth
    · exact refuses_shape (Nat.zero_le 1) hfits
    · exact refuses_shape (Nat.le_refl 1) hfits
    · change Refuses (shape (depth + 2) (node schema (depth + 1)) (node schema depth)
        (schema kind)) j
      -- The fields in front of the one that is nested too deeply are read.
      have hreads : ∀ f j, schema.FitsField f j → j.nesting < depth + 1 →
          Reads (field (depth + 1) (node schema (depth + 1)) (node schema depth) f) j :=
        fun f j hfits hlt => reads_field hfits hlt (reads_node hdistinct (depth + 1))
          fun kind j hfits hlt => reads_node hdistinct depth kind j hfits (by omega)
      have hrefuses : ∀ f j, schema.FitsField f j → depth + 1 ≤ j.nesting →
          Refuses (field (depth + 1) (node schema (depth + 1)) (node schema depth) f) j :=
        fun f j hfits hle => refuses_field (by omega) hfits hle (ih (depth + 1) (by omega))
          (fun kind j hfits hlt => reads_node hdistinct depth kind j hfits (by omega))
          fun kind j hfits hle => ih depth (by omega) kind j hfits (by omega)
      cases hfits with
      | record hshape hall =>
        rw [hshape]
        rw [nesting, nestingMembers_eq_nestingAll] at hnesting
        refine refuses_record (by omega) (hdistinct kind _ _ hshape) hall.names (fun m hm => ?_) ?_
        · obtain ⟨field, hfield, hfits⟩ := hall.exists_field hm
          refine ⟨field, hfield, ?_⟩
          exact (Nat.lt_or_ge m.2.nesting (depth + 1)).imp (hreads _ _ hfits) (hrefuses _ _ hfits)
        · obtain ⟨_, hmem, hlt⟩ := lt_nestingAll_iff.mp (Nat.le_of_succ_le_succ hnesting)
          obtain ⟨m, hm, rfl⟩ := List.mem_map.mp hmem
          obtain ⟨field, hfield, hfits⟩ := hall.exists_field hm
          exact ⟨m, hm, field, hfield, hrefuses _ _ hfits hlt⟩
      | choice hshape hvariant hfits =>
        rw [hshape]
        rw [nesting, nestingMembers, nestingMembers] at hnesting
        exact refuses_choice (by omega) hvariant (ih _ (by omega) _ _ hfits (by omega))

end Nodes

end Reader

/-- A document that fits the schema but is nested too deeply is not read. -/
theorem Schema.read_compact_deep {κ : Type} {schema : Schema κ} (hdistinct : schema.Distinct)
    {kind : κ} {j : Json} (hfits : schema.Fits kind j) {depth : Nat} (hdepth : depth ≤ j.nesting) :
    ∃ line column, schema.read depth kind j.compact =
      .error ⟨.grammar .nestedTooDeep, line, column⟩ := by
  have hnode := Reader.refuses_node hdistinct depth kind j hfits hdepth [] Reader.ends_nil
  rw [List.append_nil] at hnode
  have hdocument : Reader.Stops (Reader.document schema depth kind) j.compact.toList := hnode.bind
  obtain ⟨place, c, hrun⟩ := hdocument.placed 0 j.compact.length
    (Nat.le_of_eq String.length_toList)
  rw [Schema.read, Cursor.ofString, hrun]
  exact ⟨_, _, rfl⟩

end SimCompiler.Json
