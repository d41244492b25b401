import SimCompiler.Proofs.Analyses
import SimCompiler.Proofs.Images

/-!
# What the analyses read and write

Between name binding and type checking, three analyses add to the annotations. Each writes to
tables of its own, and none reads a table that another one writes. An analysis that ignores a part
of the annotations does the same whatever stands there, so two such analyses can change places, and
with them any order of the three can be turned into any other.
-/
namespace SimCompiler

/-- A part of the annotations, which can be read and overwritten as a whole. -/
structure Region where
  Content : Type
  get : Annotations → Content
  put : Content → Annotations → Annotations
  put_get : ∀ a, put (get a) a = a
  get_put : ∀ c a, get (put c a) = c

namespace Region

/-- Where local variables are written down. -/
def locals : Region where
  Content := SlotTable (List Variable) × SlotTable (List Variable)
  get a := (a.programLocals, a.funcLocals)
  put c a := { a with programLocals := c.1, funcLocals := c.2 }
  put_get _ := rfl
  get_put _ _ := rfl

/-- Where return statements are linked to their functions. -/
def returns : Region where
  Content := SlotTable (List ReturnSite) × SlotTable FuncId
  get a := (a.returnSites, a.returnOwners)
  put c a := { a with returnSites := c.1, returnOwners := c.2 }
  put_get _ := rfl
  get_put _ _ := rfl

def capabilities : Region where
  Content := SlotTable Capabilities
  get a := a.capabilities
  put c a := { a with capabilities := c }
  put_get _ := rfl
  get_put _ _ := rfl

/-- No overwriting of one part changes the other. -/
def Disjoint (r r' : Region) : Prop :=
  ∀ c c' a, r.put c (r'.put c' a) = r'.put c' (r.put c a)

/-- The annotations are those of `a`, except in the region. -/
def Around (r : Region) (a b : Annotations) : Prop := b = r.put (r.get b) a

end Region

namespace Pass

/-- If `x` succeeds, it has changed nothing outside of the region. -/
def Confined (r : Region) (x : Pass Annotations Unit) : Prop :=
  ∀ a b, x a = .ok () b → r.Around a b

/-- What stands in the region makes no difference to `x`, and `x` leaves it there. -/
def Ignores (r : Region) (x : Pass Annotations Unit) : Prop := ∀ c, Maps (r.put c) id id x x

theorem Ignores.get_eq {r : Region} {x : Pass Annotations Unit} (h : x.Ignores r)
    {a b : Annotations} (hrun : x a = .ok () b) : r.get b = r.get a := by
  have hsame := (h (r.get a)).run_ok hrun
  rw [r.put_get, hrun] at hsame
  injection hsame with _ hb
  rw [hb, r.get_put]

/-- Where `x` and then `y` succeed, `y` and then `x` succeed with the same outcome. -/
def YieldsTo (x y : Pass σ Unit) : Prop :=
  ∀ s s', (x >>= fun _ => y) s = .ok () s' → (y >>= fun _ => x) s = .ok () s'

theorem Confined.yieldsTo {r r' : Region} {x y : Pass Annotations Unit}
    (hdisjoint : r.Disjoint r') (hx : x.Confined r) (hx' : x.Ignores r') (hy : y.Confined r')
    (hy' : y.Ignores r) : x.YieldsTo y := by
  intro s t h
  obtain ⟨⟨⟩, s₁, hs₁, ht⟩ := bind_eq_ok_iff.mp h
  have haround : s₁ = r.put (r.get s₁) s := hx s s₁ hs₁
  rw [haround] at ht
  obtain ⟨⟨⟩, s₂, hs₂, -, rfl⟩ := (hy' (r.get s₁)).exists_ok ht
  have haround' : s₂ = r'.put (r'.get s₂) s := hy s s₂ hs₂
  have hswapped : x s₂ = .ok () (r'.put (r'.get s₂) s₁) := by
    have hrun := (hx' (r'.get s₂)).run_ok hs₁
    rwa [← haround'] at hrun
  refine bind_eq_ok_iff.mpr ⟨(), s₂, hs₂, ?_⟩
  calc x s₂ = .ok () (r'.put (r'.get s₂) (r.put (r.get s₁) s)) := by rw [hswapped, ← haround]
    _ = .ok () (r.put (r.get s₁) (r'.put (r'.get s₂) s)) := by rw [hdisjoint]
    _ = .ok () (r.put (r.get s₁) s₂) := by rw [← haround']

/-- Passes that are confined to different regions and ignore each other's can change places. -/
theorem yieldsTo_of_confined {r r' : Region} {x y : Pass Annotations Unit}
    (hdisjoint : r.Disjoint r') (hx : x.Confined r) (hx' : x.Ignores r') (hy : y.Confined r')
    (hy' : y.Ignores r) : x.YieldsTo y ∧ y.YieldsTo x :=
  ⟨hx.yieldsTo hdisjoint hx' hy hy',
    hy.yieldsTo (fun c' c a => (hdisjoint c c' a).symm) hy' hx hx'⟩

/-- Runs passes one after another. -/
def inTurn : List (Pass σ Unit) → Pass σ Unit
  | [] => pure ()
  | x :: xs => do
    x
    inTurn xs

/-- Passes that can change places pairwise can be run in any order. -/
theorem inTurn_perm {xs ys : List (Pass σ Unit)} (hperm : xs.Perm ys)
    (h : ∀ x ∈ xs, ∀ y ∈ xs, x.YieldsTo y) {s s' : σ} (hrun : inTurn xs s = .ok () s') :
    inTurn ys s = .ok () s' := by
  induction hperm generalizing s with
  | nil => exact hrun
  | cons x _ ih =>
    rw [inTurn] at hrun ⊢
    obtain ⟨⟨⟩, s₁, hs₁, hrest⟩ := bind_eq_ok_iff.mp hrun
    have hlater := ih (fun y hy z hz => h y (by simp [hy]) z (by simp [hz])) hrest
    exact bind_eq_ok_iff.mpr ⟨(), s₁, hs₁, hlater⟩
  | swap x y rest =>
    rw [inTurn, inTurn, ← bind_assoc] at hrun ⊢
    obtain ⟨⟨⟩, s₁, hs₁, hrest⟩ := bind_eq_ok_iff.mp hrun
    have hswapped := h y (by simp) x (by simp) s s₁ hs₁
    exact bind_eq_ok_iff.mpr ⟨(), s₁, hswapped, hrest⟩
  | trans hxy _ ihxy ihyz =>
    refine ihyz (fun x hx y hy => ?_) (ihxy h hrun)
    exact h x (hxy.mem_iff.mpr hx) y (hxy.mem_iff.mpr hy)

variable {f : Annotations → Annotations}

/-- What does not depend on the map can be read. -/
theorem maps_reading {p : Annotations → Result α} (h : ∀ a, p (f a) = p a) :
    Maps (Work.image f (id : ρ → ρ)) id id (consult p) (consult p) :=
  maps_consult fun a => by rw [h, Result.image_id]

theorem maps_walking_self {v : Visitor (Work ρ)}
    (henter : ∀ path node,
      Maps (Work.image f id) id id (v.enter path node) (v.enter path node))
    (hleave : ∀ path node,
      Maps (Work.image f id) id id (v.leave path node) (v.leave path node)) (own : ρ)
    (source : Source) : Maps f id id (walking v own source) (walking v own source) := by
  refine maps_walking (g := id) (maps_walk (List.map_id _).symm fun event _ => ?_) own
  refine Maps.orPosition ?_ fun _ => rfl
  obtain ⟨phase, path, node⟩ := event
  cases phase with
  | enter => exact henter path node
  | leave => exact hleave path node

end Pass

/-- Annotations that agree on what returns and capabilities are not part of, and on these. -/
theorem Annotations.eq_of_core {a b : Annotations} (hcore : b.core = a.core)
    (hsites : b.returnSites = a.returnSites) (howners : b.returnOwners = a.returnOwners)
    (hcapabilities : b.capabilities = a.capabilities) : b = a := by
  cases a
  cases b
  simp only [core, mk.injEq] at *
  grind

/-- Filling a slot commutes with a map that leaves the slot's table alone. -/
theorem SlotTable.image_write {t : SlotTable α} {slot : Slot} {path : Path} {value : α}
    {f : Annotations → Annotations} {update : SlotTable α → Annotations} {r r' : Result Annotations}
    (h : r = t.write slot path value >>= fun t => .ok (update t))
    (h' : r' = t.write slot path value >>= fun t => .ok (f (update t))) : r' = r.image id f := by
  rw [h, h']
  cases t.write slot path value <;> rfl

namespace Source

variable (s : Source) {f : Annotations → Annotations}

/-- The collection of local variables reads the frames and those of the functions. -/
theorem collectLocals_maps (hscopes : ∀ a, (f a).readScopes = a.readScopes)
    (hframe : ∀ a path, (f a).readFuncFrame path = a.readFuncFrame path)
    (hprogram : ∀ a vars, (f a).writeProgramLocals vars =
      (a.writeProgramLocals vars).image id f)
    (hfunc : ∀ a path vars, (f a).writeFuncLocals path vars =
      (a.writeFuncLocals path vars).image id f) :
    Pass.Maps f id id s.collectLocals s.collectLocals := by
  have hvars : ∀ id a, Locals.ofFrame (f a) id = Locals.ofFrame a id := by
    intro id a
    rw [Locals.ofFrame, Locals.ofFrame, hscopes]
  refine Pass.maps_walking_self (fun path node => ?_) (fun _ _ => Pass.maps_pure id ()) () s
  cases node with
  | source _ =>
    exact (Pass.maps_reading (hvars _)).bind fun vars =>
      Pass.maps_annotate fun a => hprogram a vars
  | func _ =>
    refine (Pass.maps_reading (hframe · path)).bind fun frame => ?_
    exact (Pass.maps_reading (hvars frame)).bind fun vars =>
      Pass.maps_annotate fun a => hfunc a path vars
  | _ => exact Pass.maps_pure id ()

/-- The linking of returns reads the numbers of the functions. -/
theorem linkReturns_maps (hid : ∀ a path, (f a).readFuncId path = a.readFuncId path)
    (howner : ∀ a path id', (f a).writeReturnOwner path id' =
      (a.writeReturnOwner path id').image id f)
    (hsites : ∀ a path sites, (f a).writeReturnSites path sites =
      (a.writeReturnSites path sites).image id f) :
    Pass.Maps f id id s.linkReturns s.linkReturns := by
  refine Pass.maps_walking_self (fun path node => ?_) (fun path node => ?_) [] s
  · cases node with
    | func _ =>
      exact (Pass.maps_reading (hid · path)).bind fun _ => Pass.maps_updating _
    | stmt st =>
      cases st with
      | ret position value =>
        refine Pass.maps_own.bind fun opened => ?_
        cases opened with
        | nil => exact Pass.maps_defect id rfl
        | cons entry outer =>
          exact (Pass.maps_annotate fun a => howner a path entry.1).bind fun _ =>
            Pass.maps_updating _
      | _ => exact Pass.maps_pure id ()
    | _ => exact Pass.maps_pure id ()
  · cases node with
    | func _ =>
      refine Pass.maps_own.bind fun opened => ?_
      cases opened with
      | nil => exact Pass.maps_defect id rfl
      | cons entry outer =>
        exact (Pass.maps_updating _).bind fun _ =>
          Pass.maps_annotate fun a => hsites a path entry.2
    | _ => exact Pass.maps_pure id ()

/-- The collection of capabilities reads the frames and those of the references. -/
theorem collectCapabilities_maps (hscopes : ∀ a, (f a).readScopes = a.readScopes)
    (hframe : ∀ a path, (f a).readRefFrame path = a.readRefFrame path)
    (hwrite : ∀ a path c, (f a).writeCapabilities path c =
      (a.writeCapabilities path c).image id f) :
    Pass.Maps f id id s.collectCapabilities s.collectCapabilities := by
  have hresolve : ∀ scopes path r a, (f a).resolve scopes path r = a.resolve scopes path r := by
    intro scopes path r a
    rw [Annotations.resolve, Annotations.resolve, hframe]
  have hcall : ∀ path callee, Pass.Maps (Work.image f id) id id
      (Capabilities.enterCall path callee) (Capabilities.enterCall path callee) := by
    intro path callee
    refine (Pass.maps_reading hscopes).bind fun scopes => Pass.maps_own.bind fun opened => ?_
    cases opened with
    | nil => exact Pass.maps_pure id ()
    | cons c outer =>
      refine (Pass.maps_reading (p := fun a => a.resolve scopes (.callee :: path) callee)
        (hresolve _ _ _)).bind fun d => ?_
      cases d with
      | func signature => exact Capabilities.maps_update _
      | _ => exact Pass.maps_pure id ()
  refine Pass.maps_walking_self (fun path node => ?_) (fun path node => ?_) [] s
  · cases node with
    | source _ => exact (Pass.maps_reading hscopes).bind fun _ => Pass.maps_pure id ()
    | func _ => exact Pass.maps_updating _
    | stmt st =>
      cases st with
      | print p args => exact Capabilities.maps_update _
      | _ => exact Pass.maps_pure id ()
    | expr e =>
      cases e with
      | json p r indices t => exact Capabilities.maps_update _
      | call p callee args => exact hcall path callee
      | _ => exact Pass.maps_pure id ()
    | _ => exact Pass.maps_pure id ()
  · cases node with
    | func _ =>
      refine Pass.maps_own.bind fun opened => ?_
      cases opened with
      | nil => exact Pass.maps_defect id rfl
      | cons c outer =>
        exact (Pass.maps_updating _).bind fun _ =>
          Pass.maps_annotate fun a => hwrite a path c
    | _ => exact Pass.maps_pure id ()

theorem collectLocals_ignores_returns : s.collectLocals.Ignores .returns := fun _ =>
  s.collectLocals_maps (fun _ => rfl) (fun _ _ => rfl) (fun _ _ => SlotTable.image_write rfl rfl)
    fun _ _ _ => SlotTable.image_write rfl rfl

theorem collectLocals_ignores_capabilities : s.collectLocals.Ignores .capabilities := fun _ =>
  s.collectLocals_maps (fun _ => rfl) (fun _ _ => rfl) (fun _ _ => SlotTable.image_write rfl rfl)
    fun _ _ _ => SlotTable.image_write rfl rfl

theorem linkReturns_ignores_locals : s.linkReturns.Ignores .locals := fun _ =>
  s.linkReturns_maps (fun _ _ => rfl) (fun _ _ _ => SlotTable.image_write rfl rfl)
    fun _ _ _ => SlotTable.image_write rfl rfl

theorem linkReturns_ignores_capabilities : s.linkReturns.Ignores .capabilities := fun _ =>
  s.linkReturns_maps (fun _ _ => rfl) (fun _ _ _ => SlotTable.image_write rfl rfl)
    fun _ _ _ => SlotTable.image_write rfl rfl

theorem collectCapabilities_ignores_locals : s.collectCapabilities.Ignores .locals := fun _ =>
  s.collectCapabilities_maps (fun _ => rfl) (fun _ _ => rfl)
    fun _ _ _ => SlotTable.image_write rfl rfl

theorem collectCapabilities_ignores_returns : s.collectCapabilities.Ignores .returns := fun _ =>
  s.collectCapabilities_maps (fun _ => rfl) (fun _ _ => rfl)
    fun _ _ _ => SlotTable.image_write rfl rfl

theorem collectLocals_confined : s.collectLocals.Confined .locals := by
  intro a b h
  refine Pass.walking_keeps (q := Region.locals.Around a) (fun path node _ => ?_)
    (fun _ _ _ => Pass.keeps_pure _ ()) a () b (Region.locals.put_get a).symm h
  cases node with
  | source _ =>
    refine (Pass.keeps_consult _ _).bind fun vars => Pass.keeps_annotate _ fun b c hb hc => ?_
    obtain ⟨t, -, hc⟩ := Result.bind_eq_ok_iff.mp hc
    cases hc
    exact congrArg (fun b : Annotations => { b with programLocals := t }) hb
  | func _ =>
    refine (Pass.keeps_consult _ _).bind fun frame => (Pass.keeps_consult _ _).bind fun vars =>
      Pass.keeps_annotate _ fun b c hb hc => ?_
    obtain ⟨t, -, hc⟩ := Result.bind_eq_ok_iff.mp hc
    cases hc
    exact congrArg (fun b : Annotations => { b with funcLocals := t }) hb
  | _ => exact Pass.keeps_pure _ ()

theorem linkReturns_confined : s.linkReturns.Confined .returns := by
  intro a b h
  have hcore : b.core = a.core := s.linkReturns_keeps_core a.core a () b rfl h
  exact Annotations.eq_of_core hcore rfl rfl (s.linkReturns_ignores_capabilities.get_eq h)

theorem collectCapabilities_confined : s.collectCapabilities.Confined .capabilities := by
  intro a b h
  have hcore : b.core = a.core := s.collectCapabilities_keeps_core a.core a () b rfl h
  have hreturns := s.collectCapabilities_ignores_returns.get_eq h
  exact Annotations.eq_of_core hcore (congrArg Prod.fst hreturns) (congrArg Prod.snd hreturns) rfl

/-- Any two of the three analyses can change places. -/
theorem yieldsTo_analyses {x y : Pass Annotations Unit}
    (hx : x ∈ [s.collectLocals, s.linkReturns, s.collectCapabilities])
    (hy : y ∈ [s.collectLocals, s.linkReturns, s.collectCapabilities]) : x.YieldsTo y := by
  have hself : ∀ x : Pass Annotations Unit, x.YieldsTo x := fun _ _ _ h => h
  obtain ⟨hlr, hrl⟩ := Pass.yieldsTo_of_confined (fun _ _ _ => rfl) s.collectLocals_confined
    s.collectLocals_ignores_returns s.linkReturns_confined s.linkReturns_ignores_locals
  obtain ⟨hlc, hcl⟩ := Pass.yieldsTo_of_confined (fun _ _ _ => rfl) s.collectLocals_confined
    s.collectLocals_ignores_capabilities s.collectCapabilities_confined
    s.collectCapabilities_ignores_locals
  obtain ⟨hrc, hcr⟩ := Pass.yieldsTo_of_confined (fun _ _ _ => rfl) s.linkReturns_confined
    s.linkReturns_ignores_capabilities s.collectCapabilities_confined
    s.collectCapabilities_ignores_returns
  simp only [List.mem_cons, List.not_mem_nil, or_false] at hx hy
  rcases hx with rfl | rfl | rfl
  · rcases hy with rfl | rfl | rfl
    exacts [hself _, hlr, hlc]
  · rcases hy with rfl | rfl | rfl
    exacts [hrl, hself _, hrc]
  · rcases hy with rfl | rfl | rfl
    exacts [hcl, hcr, hself _]

/-- Whatever the annotations are, the three analyses succeed in one order if they succeed in any
other, and they leave the same annotations. -/
theorem auxiliary_analyses_in_any_order (source : Source)
    (order order' : List (Pass Annotations Unit))
    (h : order.Perm [source.collectLocals, source.linkReturns, source.collectCapabilities])
    (h' : order'.Perm [source.collectLocals, source.linkReturns, source.collectCapabilities])
    (notes notes' : Annotations) :
    Pass.inTurn order notes = .ok () notes' ↔ Pass.inTurn order' notes = .ok () notes' := by
  have hyields : ∀ order : List (Pass Annotations Unit),
      order.Perm [source.collectLocals, source.linkReturns, source.collectCapabilities] →
      ∀ x ∈ order, ∀ y ∈ order, x.YieldsTo y := fun order h x hx y hy =>
    source.yieldsTo_analyses (h.mem_iff.mp hx) (h.mem_iff.mp hy)
  exact ⟨Pass.inTurn_perm (h.trans h'.symm) (hyields order h),
    Pass.inTurn_perm (h'.trans h.symm) (hyields order' h')⟩

/-- A function that declares a variable, prints, calls itself and returns, analysed backwards. -/
theorem auxiliary_analyses_in_any_order_backwards :
    let line (n : UInt32) : Position := ⟨"main", n, 1⟩
    let a : Variable := ⟨line 2, "a", ⟨line 2, "int", false⟩⟩
    let assign : Stmt := .assign (line 2) ⟨line 2, "a"⟩ (.int (line 2) 1) (some a)
    let print : Stmt := .print (line 3) [.call (line 3) ⟨line 3, "f"⟩ []]
    let f : Func := ⟨line 1, "f", [], none, ⟨line 1, [assign, print, .ret (line 4) none]⟩⟩
    let source : Source := ⟨line 1, [.func f]⟩
    ∃ notes notes', source.bindNames {} = .ok () notes ∧
      Pass.inTurn [source.collectLocals, source.linkReturns, source.collectCapabilities] notes =
        .ok () notes' ∧
      Pass.inTurn [source.collectCapabilities, source.linkReturns, source.collectLocals] notes =
        .ok () notes' := by
  intro line a assign print f source
  have hanswer : (source.bindNames >>= fun _ => Pass.inTurn
      [source.collectLocals, source.linkReturns, source.collectCapabilities]).answer {} =
      .ok () := by decide +kernel
  obtain ⟨notes', hrun⟩ := Pass.answer_eq_ok_iff.mp hanswer
  obtain ⟨⟨⟩, notes, hbind, horder⟩ := Pass.bind_eq_ok_iff.mp hrun
  refine ⟨notes, notes', hbind, horder, ?_⟩
  exact (source.auxiliary_analyses_in_any_order _ _ (.refl _) (List.reverse_perm _) notes
    notes').mp horder

end Source

end SimCompiler
