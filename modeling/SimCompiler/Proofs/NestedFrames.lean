import SimCompiler.Proofs.FrameContents

/-!
# Frames as nested environments

Frames are opened and declarations defined in any order, from the initial frames on; a definition
may fail. What has become of the calls is kept in a log: the frames that were opened, and the
definitions that succeeded. Every frame lies inside an earlier one, so a look-up goes through
finitely many frames, from the one where it starts outwards. A frame holds what was defined in it,
each name once, and a new definition is only seen where no nearer frame holds the name.
-/
namespace SimCompiler

namespace Scopes

variable {s s' : Scopes} {id : FrameId} {frame : Frame} {d : Declaration} {name : String}

/-- What frame `id` itself holds under the name. -/
def held? (s : Scopes) (id : FrameId) (name : String) : Option Declaration :=
  s.frames[id.index]?.bind (·.get? name)

/-- The frames that a look-up goes through, from `id` outwards. -/
inductive Ancestry (s : Scopes) : FrameId → List FrameId → Prop
  | outermost {id : FrameId} {frame : Frame} (hframe : s.frame id = .ok frame)
      (hparent : frame.parent = none) : Ancestry s id [id]
  | inside {id parent : FrameId} {frame : Frame} {outer : List FrameId}
      (hframe : s.frame id = .ok frame) (hparent : frame.parent = some parent)
      (h : Ancestry s parent outer) : Ancestry s id (id :: outer)

/-- A look-up that starts in `id` comes to the frame `target` before it has found the name. -/
def Reaches (s : Scopes) (name : String) (id target : FrameId) : Prop :=
  ∃ nearer outer, s.Ancestry id (nearer ++ target :: outer) ∧
    ∀ near ∈ nearer, s.held? near name = none

theorem frame_eq_ok_iff : s.frame id = .ok frame ↔ s.frames[id.index]? = some frame := by
  rw [Scopes.frame]
  cases s.frames[id.index]? <;> simp [Result.defect]

theorem exists_frame (h : id.index < s.size) : ∃ frame, s.frame id = .ok frame :=
  ⟨s.frames[id.index], frame_eq_ok_iff.mpr (List.getElem?_eq_getElem h)⟩

theorem frame_of_size_le (h : s.size ≤ id.index) :
    s.frame id = .error (.defect (.noFrame id.index s.size)) := by
  rw [Scopes.frame, List.getElem?_eq_none h]
  rfl

theorem held?_of_frame (hframe : s.frame id = .ok frame) (name : String) :
    s.held? id name = frame.get? name := by
  rw [held?, frame_eq_ok_iff.mp hframe]
  rfl

/-! ### Definitions -/

theorem define_of_size_le (h : s.size ≤ id.index) (d : Declaration) :
    s.define id d = .error (.defect (.noFrame id.index s.size)) := by
  rw [define_eq, frame_of_size_le h]
  rfl

theorem define_of_get? {holder : Declaration} (hframe : s.frame id = .ok frame)
    (hget : frame.get? d.name = some holder) :
    s.define id d = .error (.ofFault (.redefined holder)) := by
  rw [define_eq, hframe, Result.ok_bind, hget]
  rfl

theorem define_eq_ok_iff : s.define id d = .ok s' ↔ ∃ frame, s.frame id = .ok frame ∧
    frame.get? d.name = none ∧
    s' = ⟨s.frames.set id.index { frame with entries := frame.entries ++ [d] }⟩ := by
  rw [define_eq, Result.bind_eq_ok_iff]
  refine exists_congr fun frame => and_congr_right fun _ => ?_
  cases frame.get? d.name <;> simp [Result.fault, eq_comm]

theorem getElem?_define (h : s.define id d = .ok s') (i : Nat) :
    s'.frames[i]? = s.frames[i]?.map fun f =>
      if i = id.index then { f with entries := f.entries ++ [d] } else f := by
  obtain ⟨frame, hframe, -, rfl⟩ := define_eq_ok_iff.mp h
  rw [List.getElem?_set]
  by_cases hi : i = id.index
  · subst hi
    have hlt : id.index < s.frames.length := index_lt_size hframe
    rw [if_pos rfl, if_pos hlt, frame_eq_ok_iff.mp hframe]
    simp
  · rw [if_neg (Ne.symm hi)]
    simp [hi]

theorem exists_frame_define (h : s.define id d = .ok s') {other : FrameId}
    (hframe : s.frame other = .ok frame) : ∃ frame', s'.frame other = .ok frame' ∧
      frame'.name = frame.name ∧ frame'.parent = frame.parent ∧
      frame'.entries = frame.entries ++ if id = other then [d] else [] := by
  rw [frame_eq_ok_iff] at hframe
  by_cases hother : id = other
  · subst hother
    refine ⟨{ frame with entries := frame.entries ++ [d] }, frame_eq_ok_iff.mpr ?_, rfl, rfl, ?_⟩
    · simp [getElem?_define h, hframe]
    · rw [if_pos rfl]
  · have hindex : other.index ≠ id.index := fun heq => hother (congrArg FrameId.mk heq.symm)
    refine ⟨frame, frame_eq_ok_iff.mpr ?_, rfl, rfl, ?_⟩
    · simp [getElem?_define h, hframe, hindex]
    · rw [if_neg hother, List.append_nil]

theorem size_define (h : s.define id d = .ok s') : s'.size = s.size := by
  obtain ⟨frame, -, -, rfl⟩ := define_eq_ok_iff.mp h
  exact List.length_set

/-- Only the new name in its frame has another entry. -/
theorem held?_define (h : s.define id d = .ok s') (other : FrameId) (name : String) :
    s'.held? other name =
      if other = id ∧ name = d.name then some d else s.held? other name := by
  obtain ⟨frame, hframe, hfree, -⟩ := define_eq_ok_iff.mp h
  rw [held?, getElem?_define h]
  by_cases hother : other = id
  · subst hother
    rw [held?_of_frame hframe, frame_eq_ok_iff.mp hframe]
    by_cases hname : name = d.name
    · subst hname
      rw [if_pos ⟨rfl, rfl⟩]
      rw [Frame.get?] at hfree
      simp [Frame.get?, hfree]
    · rw [if_neg fun h => hname h.2]
      simp [Frame.get?, Ne.symm hname]
  · have hindex : other.index ≠ id.index := fun heq => hother (congrArg FrameId.mk heq)
    rw [if_neg fun h => hother h.1, held?]
    simp [hindex]

theorem declare_eq_ok_iff : declare id d s = .ok () s' ↔ s.define id d = .ok s' := by
  cases h : s.define id d <;> simp [declare_eq, h]

theorem declare_eq_error_iff {e : CompileError} :
    declare id d s = .error e s' ↔ s.define id d = .error e ∧ s' = s := by
  cases h : s.define id d <;> simp [declare_eq, h, eq_comm]

/-! ### Look-ups -/

/-- Frames that lie inside earlier ones have finitely many frames around them. -/
theorem Ordered.exists_ancestry (hs : s.Ordered) (h : id.index < s.size) :
    ∃ ids, s.Ancestry id ids := by
  induction hn : id.index using Nat.strongRecOn generalizing id with
  | ind n ih =>
    obtain ⟨frame, hframe⟩ := exists_frame h
    cases hparent : frame.parent with
    | none => exact ⟨[id], .outermost hframe hparent⟩
    | some parent =>
      have hlt := hs id frame parent hframe hparent
      obtain ⟨outer, houter⟩ := ih parent.index (hn ▸ hlt) (by omega) rfl
      exact ⟨id :: outer, .inside hframe hparent houter⟩

theorem Ancestry.unique {ids ids' : List FrameId} (h : s.Ancestry id ids)
    (h' : s.Ancestry id ids') : ids = ids' := by
  induction h generalizing ids' with
  | outermost hframe hparent =>
    cases h' with
    | outermost => rfl
    | inside hframe' hparent' =>
      cases hframe.symm.trans hframe'
      cases hparent.symm.trans hparent'
  | inside hframe hparent _ ih =>
    cases h' with
    | outermost hframe' hparent' =>
      cases hframe.symm.trans hframe'
      cases hparent.symm.trans hparent'
    | inside hframe' hparent' houter =>
      cases hframe.symm.trans hframe'
      cases hparent.symm.trans hparent'
      rw [ih houter]

theorem Ancestry.length_le (hs : s.Ordered) {ids : List FrameId} (h : s.Ancestry id ids) :
    ids.length ≤ id.index + 1 := by
  induction h with
  | outermost => simp
  | @inside id parent frame outer hframe hparent _ ih =>
    have hlt := hs id frame parent hframe hparent
    rw [List.length_cons]
    omega

/-- Enough steps are as many as there are frames to go through. -/
theorem Ancestry.lookupWithin {ids : List FrameId} (h : s.Ancestry id ids) (name : String)
    {steps : Nat} (hsteps : ids.length ≤ steps) :
    s.lookupWithin name steps id = .ok (ids.findSome? (s.held? · name)) := by
  induction h generalizing steps with
  | @outermost id frame hframe hparent =>
    obtain ⟨n, rfl⟩ : ∃ n, steps = n + 1 := ⟨steps - 1, by simp at hsteps; omega⟩
    rw [Scopes.lookupWithin, hframe, Result.ok_bind, List.findSome?_singleton,
      held?_of_frame hframe, hparent]
    cases frame.get? name <;> rfl
  | @inside id parent frame outer hframe hparent _ ih =>
    obtain ⟨n, rfl⟩ : ∃ n, steps = n + 1 := ⟨steps - 1, by simp at hsteps; omega⟩
    rw [Scopes.lookupWithin, hframe, Result.ok_bind, List.findSome?_cons,
      held?_of_frame hframe, hparent]
    cases frame.get? name with
    | some d => rfl
    | none => exact ih (by simpa using hsteps)

theorem Ancestry.index_lt_size {ids : List FrameId} (h : s.Ancestry id ids) :
    id.index < s.size := by
  cases h with
  | outermost hframe => exact Scopes.index_lt_size hframe
  | inside hframe => exact Scopes.index_lt_size hframe

theorem Ancestry.lookup (hs : s.Ordered) {ids : List FrameId} (h : s.Ancestry id ids)
    (name : String) : s.lookup id name = .ok (ids.findSome? (s.held? · name)) := by
  have hlength := h.length_le hs
  have hlt := h.index_lt_size
  exact h.lookupWithin name (by omega)

theorem lookup_of_size_le (h : s.size ≤ id.index) (name : String) :
    s.lookup id name = .error (.defect (.noFrame id.index s.size)) := by
  rw [lookup, lookupWithin, frame_of_size_le h]
  rfl

/-- Definitions do not move frames. -/
theorem Ancestry.define (hs' : s.define id d = .ok s') {other : FrameId} {ids : List FrameId}
    (h : s.Ancestry other ids) : s'.Ancestry other ids := by
  induction h with
  | outermost hframe hparent =>
    obtain ⟨frame', hframe', -, heq, -⟩ := exists_frame_define hs' hframe
    exact .outermost hframe' (heq.trans hparent)
  | inside hframe hparent _ ih =>
    obtain ⟨frame', hframe', -, heq, -⟩ := exists_frame_define hs' hframe
    exact .inside hframe' (heq.trans hparent) ih

/-- A new definition is found where it is reached. -/
theorem findSome?_define (hs' : s.define id d = .ok s') (nearer outer : List FrameId)
    (hnearer : ∀ near ∈ nearer, s.held? near d.name = none) :
    (nearer ++ id :: outer).findSome? (s'.held? · d.name) = some d := by
  have hnew : s'.held? id d.name = some d := by rw [held?_define hs', if_pos ⟨rfl, rfl⟩]
  induction nearer with
  | nil => rw [List.nil_append, List.findSome?_cons, hnew]
  | cons near nearer ih =>
    have hrest := ih fun x hx => hnearer x (by simp [hx])
    rw [List.cons_append, List.findSome?_cons, held?_define hs', hnearer near (by simp), hrest]
    split <;> simp_all

/-- A look-up that finds the name before it reaches the new definition, or not at all, finds the
same as before. -/
theorem findSome?_define_of_not_reached (hs' : s.define id d = .ok s') (name : String)
    (ids : List FrameId)
    (hids : ¬ (name = d.name ∧ ∃ nearer outer, ids = nearer ++ id :: outer ∧
      ∀ near ∈ nearer, s.held? near name = none)) :
    ids.findSome? (s'.held? · name) = ids.findSome? (s.held? · name) := by
  induction ids with
  | nil => rfl
  | cons first ids ih =>
    have hfirst : ¬ (first = id ∧ name = d.name) := by
      rintro ⟨rfl, hname⟩
      exact hids ⟨hname, [], ids, rfl, by simp⟩
    rw [List.findSome?_cons, List.findSome?_cons, held?_define hs', if_neg hfirst]
    cases hentry : s.held? first name with
    | some _ => rfl
    | none =>
      refine ih ?_
      rintro ⟨hname, nearer, outer, rfl, hnearer⟩
      refine hids ⟨hname, first :: nearer, outer, rfl, ?_⟩
      simpa [hentry] using hnearer

/-- A new definition changes the look-ups that reach it. -/
theorem lookup_define (hs : s.Ordered) (hordered : s'.Ordered) (hs' : s.define id d = .ok s')
    (start : FrameId) (name : String) :
    (name = d.name ∧ s.Reaches name start id → s'.lookup start name = .ok (some d)) ∧
      (¬ (name = d.name ∧ s.Reaches name start id) →
        s'.lookup start name = s.lookup start name) := by
  constructor
  · rintro ⟨rfl, nearer, outer, hids, hnearer⟩
    rw [(hids.define hs').lookup hordered, findSome?_define hs' nearer outer hnearer]
  · intro hunreached
    by_cases hstart : start.index < s.size
    · obtain ⟨ids, hids⟩ := hs.exists_ancestry hstart
      rw [(hids.define hs').lookup hordered, hids.lookup hs,
        findSome?_define_of_not_reached hs' name ids]
      rintro ⟨hname, nearer, outer, rfl, hnearer⟩
      exact hunreached ⟨hname, nearer, outer, hids, hnearer⟩
    · have hle : s.size ≤ start.index := by omega
      have hsize := size_define hs'
      rw [lookup_of_size_le hle, lookup_of_size_le (hsize ▸ hle), hsize]

end Scopes

/-! ### Runs -/

/-- The frames that were opened, each with its name and the frame around it, and the definitions
that succeeded, both in order. -/
structure FrameLog where
  opened : List (String × FrameId) := []
  defined : List Site := []

/-- Any number of calls, from the initial frames on, lead to the frames `s`. A frame is opened
inside one that exists. -/
inductive Scopes.Reached : Scopes → FrameLog → Prop
  | initial : Reached Scopes.initial {}
  | opened {s : Scopes} {log : FrameLog} (h : Reached s log) (name : String) {parent : FrameId}
      (hparent : parent.index < s.size) :
      Reached (s.openFrame name parent).2 { log with opened := log.opened ++ [(name, parent)] }
  | defined {s s' : Scopes} {log : FrameLog} (h : Reached s log) {site : Site}
      (hrun : declare site.frame site.declaration s = .ok () s') :
      Reached s' { log with defined := log.defined ++ [site] }
  | refused {s s' : Scopes} {log : FrameLog} (h : Reached s log) {site : Site} {e : CompileError}
      (hrun : declare site.frame site.declaration s = .error e s') : Reached s' log

namespace FrameLog

/-- What the log says about the frames. -/
structure Describes (log : FrameLog) (s : Scopes) : Prop where
  size_eq : s.size = log.opened.length + 1
  outermost : ∃ frame, s.frame Scopes.root = .ok frame ∧ frame.parent = none
  inside : ∀ k name parent, log.opened[k]? = some (name, parent) → parent.index ≤ k ∧
    ∃ frame, s.frame ⟨k + 1⟩ = .ok frame ∧ frame.name = name ∧ frame.parent = some parent
  entries : ∀ id frame, s.frame id = .ok frame → frame.entries = Site.held log.defined id
  distinct : ∀ id, ((Site.held log.defined id).map (·.name)).Nodup
  placed : ∀ site ∈ log.defined, site.frame.index < s.size

variable {log : FrameLog} {s s' : Scopes}

theorem Describes.ordered (h : log.Describes s) : s.Ordered := by
  rintro ⟨_ | k⟩ frame parent hframe hparent
  · obtain ⟨root, hroot, hnone⟩ := h.outermost
    cases hroot.symm.trans hframe
    cases hnone.symm.trans hparent
  · have hk := Scopes.index_lt_size hframe
    rw [h.size_eq] at hk
    have hopened := List.getElem?_eq_getElem (Nat.lt_of_succ_lt_succ hk)
    obtain ⟨hle, frame', hframe', -, hparent'⟩ := h.inside k _ _ hopened
    cases hframe'.symm.trans hframe
    cases hparent'.symm.trans hparent
    exact Nat.lt_succ_of_le hle

theorem describes_initial : FrameLog.Describes {} Scopes.initial := by
  refine ⟨rfl, ⟨_, rfl, rfl⟩, by simp, ?_, ?_, by simp⟩
  · rintro ⟨_ | k⟩ frame hframe
    · cases hframe
      rfl
    · cases hframe
  · intro id
    simpa [Site.held] using id.nodup_prelude

theorem Describes.openFrame (h : log.Describes s) (name : String) {parent : FrameId}
    (hparent : parent.index < s.size) :
    Describes { log with opened := log.opened ++ [(name, parent)] }
      (s.openFrame name parent).2 := by
  have hsize := h.size_eq
  have hold : ∀ {id : FrameId} {frame : Frame}, s.frame id = .ok frame →
      (s.openFrame name parent).2.frame id = .ok frame := by
    intro id frame hframe
    have hlt : id.index < s.frames.length := Scopes.index_lt_size hframe
    simp only [Scopes.frame_eq_ok_iff] at hframe ⊢
    rw [Scopes.openFrame, List.getElem?_append_left hlt, hframe]
  have hnew : (s.openFrame name parent).2.frame ⟨s.size⟩ = .ok ⟨name, some parent, []⟩ := by
    rw [Scopes.frame_eq_ok_iff]
    exact List.getElem?_concat_length
  refine ⟨by simp [hsize], ?_, ?_, ?_, h.distinct, ?_⟩
  · obtain ⟨root, hroot, hnone⟩ := h.outermost
    exact ⟨root, hold hroot, hnone⟩
  · intro k name' parent' hk
    rw [List.getElem?_append] at hk
    split at hk
    · obtain ⟨hle, frame, hframe, hframe'⟩ := h.inside k name' parent' hk
      exact ⟨hle, frame, hold hframe, hframe'⟩
    next hlt =>
      rw [List.getElem?_singleton] at hk
      split at hk
      next hzero =>
        obtain rfl : k = log.opened.length := by omega
        cases hk
        rw [← hsize]
        exact ⟨by omega, _, hnew, rfl, rfl⟩
      · cases hk
  · intro id frame hframe
    have hlt := Scopes.index_lt_size hframe
    rw [Scopes.size_openFrame] at hlt
    by_cases hid : id.index < s.size
    · obtain ⟨frame', hframe'⟩ := Scopes.exists_frame hid
      cases (hold hframe').symm.trans hframe
      exact h.entries id frame hframe'
    · obtain rfl : id = ⟨s.size⟩ := congrArg FrameId.mk (by omega : id.index = s.size)
      cases hnew.symm.trans hframe
      -- Nothing was defined in a frame before it was opened.
      have hempty : Site.inFrame log.defined ⟨s.size⟩ = [] := by
        rw [Site.inFrame, List.map_eq_nil_iff, List.filter_eq_nil_iff]
        intro site hsite heq
        have hplaced := h.placed site hsite
        rw [of_decide_eq_true heq] at hplaced
        exact Nat.lt_irrefl _ hplaced
      rw [Site.held, hempty, hsize]
      rfl
  · intro site hsite
    rw [Scopes.size_openFrame]
    exact Nat.lt_succ_of_lt (h.placed site hsite)

theorem Describes.define (h : log.Describes s) {site : Site}
    (hs' : s.define site.frame site.declaration = .ok s') :
    Describes { log with defined := log.defined ++ [site] } s' := by
  obtain ⟨frame, hframe, hfree, -⟩ := Scopes.define_eq_ok_iff.mp hs'
  have hsize := Scopes.size_define hs'
  refine ⟨hsize.trans h.size_eq, ?_, ?_, ?_, ?_, ?_⟩
  · obtain ⟨root, hroot, hnone⟩ := h.outermost
    obtain ⟨root', hroot', -, hparent, -⟩ := Scopes.exists_frame_define hs' hroot
    exact ⟨root', hroot', hparent.trans hnone⟩
  · intro k name parent hk
    obtain ⟨hle, frame, hframe, hname, hparent⟩ := h.inside k name parent hk
    obtain ⟨frame', hframe', hname', hparent', -⟩ := Scopes.exists_frame_define hs' hframe
    exact ⟨hle, frame', hframe', hname'.trans hname, hparent'.trans hparent⟩
  · intro id frame' hframe'
    obtain ⟨before, hbefore⟩ := Scopes.exists_frame (hsize ▸ Scopes.index_lt_size hframe')
    obtain ⟨after, hafter, -, -, hentries⟩ := Scopes.exists_frame_define hs' hbefore
    cases hafter.symm.trans hframe'
    rw [hentries, h.entries id before hbefore, Site.held_concat]
  · intro id
    rw [Site.held_concat]
    by_cases hid : site.frame = id
    · subst hid
      rw [if_pos rfl, List.map_append, List.nodup_append]
      refine ⟨h.distinct _, by simp, ?_⟩
      rintro name hname _ hnew rfl
      obtain ⟨holder, hholder, rfl⟩ := List.mem_map.mp hname
      rw [← h.entries _ frame hframe] at hholder
      rw [Frame.get?, List.find?_eq_none] at hfree
      exact hfree holder hholder (by simpa using hnew)
    · rw [if_neg hid, List.append_nil]
      exact h.distinct id
  · intro other hother
    rw [hsize]
    rcases List.mem_append.mp hother with hold | hnew
    · exact h.placed other hold
    · obtain rfl := List.mem_singleton.mp hnew
      exact Scopes.index_lt_size hframe

end FrameLog

namespace Scopes

variable {s : Scopes} {log : FrameLog}

theorem Reached.describes (h : s.Reached log) : log.Describes s := by
  induction h with
  | initial => exact FrameLog.describes_initial
  | opened _ name hparent ih => exact ih.openFrame name hparent
  | defined _ hrun ih => exact ih.define (declare_eq_ok_iff.mp hrun)
  | refused _ hrun ih =>
    obtain ⟨-, rfl⟩ := declare_eq_error_iff.mp hrun
    exact ih

/-- Whatever calls have been made, frames are nested environments: a frame lies inside the earlier
one it was opened in, and it holds what was defined in it, in order and each name once. A
definition fails, and changes nothing, if its frame does not exist or holds the name. A look-up goes
outwards and ends at the nearest frame that holds the name; a new definition changes exactly the
look-ups of its name that reach it. -/
theorem Reached.nested_environments (h : s.Reached log) :
    (s.Ordered ∧ s.size = log.opened.length + 1 ∧
      ∀ k name parent, log.opened[k]? = some (name, parent) → ∃ frame,
        s.frame ⟨k + 1⟩ = .ok frame ∧ frame.name = name ∧ frame.parent = some parent) ∧
    (∀ id frame, s.frame id = .ok frame →
      frame.entries = id.prelude ++ Site.inFrame log.defined id ∧
      (frame.entries.map (·.name)).Nodup) ∧
    (∀ site : Site,
      (s.size ≤ site.frame.index →
        ∃ defect, declare site.frame site.declaration s = .error (.defect defect) s) ∧
      ∀ frame, s.frame site.frame = .ok frame →
        ((∃ holder ∈ frame.entries, holder.name = site.declaration.name) →
          ∃ e, declare site.frame site.declaration s = .error (.code e) s ∧
            e.kind = .reference) ∧
        ((∀ holder ∈ frame.entries, holder.name ≠ site.declaration.name) →
          ∃ s', declare site.frame site.declaration s = .ok () s')) ∧
    (∀ id, id.index < s.size → ∃ ids, s.Ancestry id ids ∧ ∀ name,
      s.lookup id name = .ok (ids.findSome? (s.held? · name)) ∧
      ∀ steps, id.index < steps → s.lookupWithin name steps id = s.lookup id name) ∧
    ∀ (site : Site) s', declare site.frame site.declaration s = .ok () s' → ∀ id name,
      (name = site.declaration.name ∧ s.Reaches name id site.frame →
        s'.lookup id name = .ok (some site.declaration)) ∧
      (¬ (name = site.declaration.name ∧ s.Reaches name id site.frame) →
        s'.lookup id name = s.lookup id name) := by
  have hlog := h.describes
  have hordered := hlog.ordered
  refine ⟨⟨hordered, hlog.size_eq, ?_⟩, ?_, ?_, ?_, ?_⟩
  · intro k name parent hk
    exact (hlog.inside k name parent hk).2
  · intro id frame hframe
    have hentries := hlog.entries id frame hframe
    exact ⟨hentries, hentries ▸ hlog.distinct id⟩
  · intro site
    constructor
    · intro hmissing
      exact ⟨_, declare_eq_error_iff.mpr ⟨define_of_size_le hmissing _, rfl⟩⟩
    · intro frame hframe
      constructor
      · rintro ⟨holder, hholder, hname⟩
        have hsome : (frame.get? site.declaration.name).isSome := by
          rw [Frame.get?, List.find?_isSome]
          exact ⟨holder, hholder, by simpa using hname⟩
        obtain ⟨found, hfound⟩ := Option.isSome_iff_exists.mp hsome
        exact ⟨_, declare_eq_error_iff.mpr ⟨define_of_get? hframe hfound, rfl⟩, rfl⟩
      · intro hfree
        have hnone : frame.get? site.declaration.name = none := by
          rw [Frame.get?, List.find?_eq_none]
          simpa using hfree
        exact ⟨_, declare_eq_ok_iff.mpr (define_eq_ok_iff.mpr ⟨frame, hframe, hnone, rfl⟩)⟩
  · intro id hid
    obtain ⟨ids, hids⟩ := hordered.exists_ancestry hid
    refine ⟨ids, hids, fun name => ⟨hids.lookup hordered name, fun steps hsteps => ?_⟩⟩
    have hlength := hids.length_le hordered
    rw [hids.lookup hordered, hids.lookupWithin name (by omega)]
  · intro site s' hrun
    exact lookup_define hordered (h.defined hrun).describes.ordered (declare_eq_ok_iff.mp hrun)

/-- A variable of the root frame is hidden from the frames inside the one that declares it again,
and there it cannot be declared a third time. -/
theorem Reached.nested_environments_hiding :
    let x (line : UInt32) : Declaration :=
      .localVar ⟨⟨"main", line, 1⟩, "x", ⟨⟨"main", line, 1⟩, "int", false⟩⟩
    ∃ s s' : Scopes, s.Reached ⟨[("fn f", root), ("fn g", ⟨1⟩)], [⟨root, x 1⟩]⟩ ∧
      declare ⟨1⟩ (x 2) s = .ok () s' ∧ s.lookup ⟨2⟩ "x" = .ok (some (x 1)) ∧
      s'.lookup ⟨2⟩ "x" = .ok (some (x 2)) ∧ s'.lookup root "x" = s.lookup root "x" ∧
      ∃ e, declare ⟨1⟩ (x 3) s' = .error (.code e) s' ∧ e.kind = .reference := by
  intro x
  let opened : Scopes := ((Scopes.initial.openFrame "fn f" root).2.openFrame "fn g" ⟨1⟩).2
  have hopened : opened.Reached ⟨[("fn f", root), ("fn g", ⟨1⟩)], []⟩ :=
    .opened (.opened .initial "fn f" (by decide)) "fn g" (by decide)
  have hids : opened.Ancestry ⟨2⟩ [⟨2⟩, ⟨1⟩, root] :=
    .inside rfl rfl (.inside rfl rfl (.outermost rfl rfl))
  have hunset : ∀ id ∈ [⟨2⟩, ⟨1⟩], opened.held? id "x" = none := by decide
  obtain ⟨-, -, hdefine, -, hlookup⟩ := hopened.nested_environments
  obtain ⟨s, hs⟩ := ((hdefine ⟨root, x 1⟩).2 _ rfl).2 (by decide)
  have hfirst := (hlookup _ s hs ⟨2⟩ "x").1 ⟨rfl, [⟨2⟩, ⟨1⟩], [], hids, hunset⟩
  have hstep := declare_eq_ok_iff.mp hs
  obtain ⟨⟨-, -, hframes⟩, hentries, hdefine, -, hlookup⟩ :=
    (hopened.defined hs).nested_environments
  obtain ⟨f, hf, -⟩ := hframes 0 "fn f" root rfl
  have hempty : f.entries = [] := (hentries _ f hf).1
  obtain ⟨s', hs'⟩ := ((hdefine ⟨⟨1⟩, x 2⟩).2 f hf).2 (by simp [hempty])
  have hsecond := (hlookup _ s' hs' ⟨2⟩ "x").1 ⟨rfl, [⟨2⟩], [root], hids.define hstep, by
    simp [held?_define hstep, hunset]⟩
  have hroot := (hlookup _ s' hs' root "x").2 (by
    rintro ⟨-, nearer, outer, hchain, -⟩
    have hsingle := (Ancestry.outermost (s := opened) rfl rfl).define hstep |>.unique hchain
    cases nearer <;> simp [root] at hsingle)
  obtain ⟨⟨-, -, hframes⟩, hentries, hdefine, -⟩ :=
    ((hopened.defined hs).defined hs').nested_environments
  obtain ⟨f', hf', -⟩ := hframes 0 "fn f" root rfl
  have htaken : f'.entries = [x 2] := (hentries _ f' hf').1
  have hrefused := ((hdefine ⟨⟨1⟩, x 3⟩).2 f' hf').1 ⟨x 2, by simp [htaken], rfl⟩
  exact ⟨s, s', hopened.defined hs, hs', hfirst, hsecond, hroot, hrefused⟩

end Scopes

end SimCompiler
