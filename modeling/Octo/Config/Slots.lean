import Octo.Foundation.Traverse

/-!
# The slots of a block

A composite block is ten typed slots, in the document, in the config and in the built tree.  `Parts`
is what the three have in common, over what stands for a block, a flow, a case, a route and a tool;
`Parts.Rel` relates two blocks part by part.

* `Parts.exists_rel_comp` — passes compose part by part.
* `Parts.Rel.iff_forall` — a relation between all parts as a condition on each of them.
-/

namespace Octo.Config

open List Option Octo.Foundation.Traverse

@[ext]
structure Parts (α β γ ρ τ : Type) where
  process : List α := []
  error : List α := []
  branches : List β := []
  then' : Option β := none
  else' : Option β := none
  cases : List γ := []
  default' : Option β := none
  body : Option β := none
  routes : List ρ := []
  tools : List τ := []

namespace Parts

section Rel

variable {α β γ ρ τ α' β' γ' ρ' τ' α'' β'' γ'' ρ'' τ'' : Type}

@[mk_iff]
structure Rel (A : α → α' → Prop) (B : β → β' → Prop) (C : γ → γ' → Prop) (R : ρ → ρ' → Prop)
    (T : τ → τ' → Prop) (p : Parts α β γ ρ τ) (q : Parts α' β' γ' ρ' τ') : Prop where
  process : List.Forall₂ A p.process q.process
  error : List.Forall₂ A p.error q.error
  branches : List.Forall₂ B p.branches q.branches
  then' : Option.Rel B p.then' q.then'
  else' : Option.Rel B p.else' q.else'
  cases : List.Forall₂ C p.cases q.cases
  default' : Option.Rel B p.default' q.default'
  body : Option.Rel B p.body q.body
  routes : List.Forall₂ R p.routes q.routes
  tools : List.Forall₂ T p.tools q.tools

variable {A : α → α' → Prop} {B : β → β' → Prop} {C : γ → γ' → Prop} {R : ρ → ρ' → Prop}
  {T : τ → τ' → Prop} {A' : α' → α'' → Prop} {B' : β' → β'' → Prop} {C' : γ' → γ'' → Prop}
  {R' : ρ' → ρ'' → Prop} {T' : τ' → τ'' → Prop}

variable {p : Parts α β γ ρ τ}

theorem exists_rel_comp {r : Parts α'' β'' γ'' ρ'' τ''} :
    (∃ q : Parts α' β' γ' ρ' τ', Rel A B C R T p q ∧ Rel A' B' C' R' T' q r) ↔
      Rel (fun x z => ∃ y, A x y ∧ A' y z) (fun x z => ∃ y, B x y ∧ B' y z)
        (fun x z => ∃ y, C x y ∧ C' y z) (fun x z => ∃ y, R x y ∧ R' y z)
        (fun x z => ∃ y, T x y ∧ T' y z) p r := by
  constructor
  · rintro ⟨q, h, h'⟩
    exact
      { process := exists_forall₂_comp.1 ⟨_, h.process, h'.process⟩
        error := exists_forall₂_comp.1 ⟨_, h.error, h'.error⟩
        branches := exists_forall₂_comp.1 ⟨_, h.branches, h'.branches⟩
        then' := exists_optionRel_comp.1 ⟨_, h.then', h'.then'⟩
        else' := exists_optionRel_comp.1 ⟨_, h.else', h'.else'⟩
        cases := exists_forall₂_comp.1 ⟨_, h.cases, h'.cases⟩
        default' := exists_optionRel_comp.1 ⟨_, h.default', h'.default'⟩
        body := exists_optionRel_comp.1 ⟨_, h.body, h'.body⟩
        routes := exists_forall₂_comp.1 ⟨_, h.routes, h'.routes⟩
        tools := exists_forall₂_comp.1 ⟨_, h.tools, h'.tools⟩ }
  · intro h
    obtain ⟨process, hprocess⟩ := exists_forall₂_comp.2 h.process
    obtain ⟨error, herror⟩ := exists_forall₂_comp.2 h.error
    obtain ⟨branches, hbranches⟩ := exists_forall₂_comp.2 h.branches
    obtain ⟨then', hthen⟩ := exists_optionRel_comp.2 h.then'
    obtain ⟨else', helse⟩ := exists_optionRel_comp.2 h.else'
    obtain ⟨cases, hcases⟩ := exists_forall₂_comp.2 h.cases
    obtain ⟨default', hdefault⟩ := exists_optionRel_comp.2 h.default'
    obtain ⟨body, hbody⟩ := exists_optionRel_comp.2 h.body
    obtain ⟨routes, hroutes⟩ := exists_forall₂_comp.2 h.routes
    obtain ⟨tools, htools⟩ := exists_forall₂_comp.2 h.tools
    exact ⟨⟨process, error, branches, then', else', cases, default', body, routes, tools⟩,
      ⟨hprocess.1, herror.1, hbranches.1, hthen.1, helse.1, hcases.1, hdefault.1, hbody.1,
        hroutes.1, htools.1⟩,
      ⟨hprocess.2, herror.2, hbranches.2, hthen.2, helse.2, hcases.2, hdefault.2, hbody.2,
        hroutes.2, htools.2⟩⟩

theorem rel_eq {q : Parts α β γ ρ τ} : Rel Eq Eq Eq Eq Eq p q ↔ p = q := by
  simp [rel_iff, optionRel_eq, Parts.ext_iff]

def map (a : α → α') (b : β → β') (c : γ → γ') (r : ρ → ρ') (t : τ → τ') (p : Parts α β γ ρ τ) :
    Parts α' β' γ' ρ' τ' :=
  ⟨p.process.map a, p.error.map a, p.branches.map b, p.then'.map b, p.else'.map b, p.cases.map c,
    p.default'.map b, p.body.map b, p.routes.map r, p.tools.map t⟩

theorem rel_map_left {a : α → α'} {b : β → β'} {c : γ → γ'} {r : ρ → ρ'} {t : τ → τ'}
    {q : Parts α'' β'' γ'' ρ'' τ''} : Rel A' B' C' R' T' (p.map a b c r t) q ↔
      Rel (fun x y => A' (a x) y) (fun x y => B' (b x) y) (fun x y => C' (c x) y)
        (fun x y => R' (r x) y) (fun x y => T' (t x) y) p q := by
  simp [rel_iff, map, optionRel_map_left]

/-- Which slots are set, and how many entries each has. -/
def shape (p : Parts α β γ ρ τ) : Parts Unit Unit Unit Unit Unit :=
  p.map (fun _ => ()) (fun _ => ()) (fun _ => ()) (fun _ => ()) fun _ => ()

theorem Rel.shape_eq {q : Parts α' β' γ' ρ' τ'} (h : Rel A B C R T p q) : p.shape = q.shape := by
  have hlist : ∀ {α β : Type} {R : α → β → Prop} {xs : List α} {ys : List β},
      List.Forall₂ R xs ys → (xs.map fun _ => ()) = ys.map fun _ => () := fun h =>
    (map_eq_of_forall₂ (fun _ _ _ => rfl) h).symm
  have hflow : ∀ {α β : Type} {R : α → β → Prop} {x : Option α} {y : Option β},
      Option.Rel R x y → (x.map fun _ => ()) = y.map fun _ => () := by
    rintro _ _ _ _ _ (_ | _) <;> rfl
  simp only [shape, map, Parts.mk.injEq]
  exact ⟨hlist h.process, hlist h.error, hlist h.branches, hflow h.then', hflow h.else',
    hlist h.cases, hflow h.default', hflow h.body, hlist h.routes, hlist h.tools⟩

variable {A₂ : α → α' → Prop} {B₂ : β → β' → Prop} {C₂ : γ → γ' → Prop} {R₂ : ρ → ρ' → Prop}
  {T₂ : τ → τ' → Prop}

variable {q : Parts α' β' γ' ρ' τ'}

theorem Rel.imp (h : Rel A B C R T p q) (hA : ∀ x y, A x y → A₂ x y)
    (hB : ∀ x y, B x y → B₂ x y) (hC : ∀ x y, C x y → C₂ x y) (hR : ∀ x y, R x y → R₂ x y)
    (hT : ∀ x y, T x y → T₂ x y) : Rel A₂ B₂ C₂ R₂ T₂ p q where
  process := h.process.imp hA
  error := h.error.imp hA
  branches := h.branches.imp hB
  then' := optionRel_imp hB h.then'
  else' := optionRel_imp hB h.else'
  cases := h.cases.imp hC
  default' := optionRel_imp hB h.default'
  body := optionRel_imp hB h.body
  routes := h.routes.imp hR
  tools := h.tools.imp hT

def chains (p : Parts α β γ ρ τ) : List α := p.process ++ p.error

def flows (p : Parts α β γ ρ τ) : List β :=
  p.branches ++ p.then'.toList ++ p.else'.toList ++ p.default'.toList ++ p.body.toList

theorem Rel.iff_forall {P : α → Prop} {F : β → Prop} {K : γ → Prop}
    {U : ρ → Prop} {V : τ → Prop} (h : Rel A B C R T p q)
    (hA : ∀ x ∈ p.chains, ∀ y, A x y → (A₂ x y ↔ P x))
    (hB : ∀ x ∈ p.flows, ∀ y, B x y → (B₂ x y ↔ F x))
    (hC : ∀ x ∈ p.cases, ∀ y, C x y → (C₂ x y ↔ K x))
    (hR : ∀ x ∈ p.routes, ∀ y, R x y → (R₂ x y ↔ U x))
    (hT : ∀ x ∈ p.tools, ∀ y, T x y → (T₂ x y ↔ V x)) :
    Rel A₂ B₂ C₂ R₂ T₂ p q ↔ (∀ x ∈ p.chains, P x) ∧ (∀ x ∈ p.flows, F x) ∧ (∀ x ∈ p.cases, K x) ∧
      (∀ x ∈ p.routes, U x) ∧ ∀ x ∈ p.tools, V x := by
  simp only [chains, flows, mem_append, or_imp, forall_and, mem_toList] at hA hB ⊢
  obtain ⟨hprocess, herror⟩ := hA
  obtain ⟨⟨⟨⟨hbranches, hthen⟩, helse⟩, hdefault⟩, hbody⟩ := hB
  rw [rel_iff, forall₂_agree_iff h.process hprocess, forall₂_agree_iff h.error herror,
    forall₂_agree_iff h.branches hbranches, optionRel_agree_iff h.then' hthen,
    optionRel_agree_iff h.else' helse, forall₂_agree_iff h.cases hC,
    optionRel_agree_iff h.default' hdefault, optionRel_agree_iff h.body hbody,
    forall₂_agree_iff h.routes hR, forall₂_agree_iff h.tools hT]
  tauto

end Rel

end Parts

end Octo.Config
