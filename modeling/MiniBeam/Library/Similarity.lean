import MiniBeam.Library.RootedGraph
import Mathlib.Data.List.Forall2
import Mathlib.Data.Set.Card
import Mathlib.Data.Sum.Basic
import Mathlib.Logic.Relation

/-! Similar rooted graphs: a vertex map that keeps the labels and the references that the
roots can see, and the data up to a relation. With equal data this is an isomorphism. -/

namespace RootedGraph

section Lists

variable {α β γ : Type} {R S : α → β → Prop} {l : List α} {l' : List β}

theorem forall₂_imp_of_mem (h : List.Forall₂ R l l')
    (himp : ∀ x ∈ l, ∀ y ∈ l', R x y → S x y) : List.Forall₂ S l l' := by
  induction h with
  | nil => exact .nil
  | cons hr _ ih =>
      refine .cons (himp _ List.mem_cons_self _ List.mem_cons_self hr) (ih fun x hx y hy => ?_)
      exact himp x (List.mem_cons_of_mem _ hx) y (List.mem_cons_of_mem _ hy)

theorem forall₂_mem_left (h : List.Forall₂ R l l') {x : α} (hx : x ∈ l) : ∃ y ∈ l', R x y := by
  induction h with
  | nil => cases hx
  | @cons a b _ _ hr _ ih =>
      rcases List.mem_cons.mp hx with rfl | hx
      · exact ⟨b, List.mem_cons_self, hr⟩
      · obtain ⟨y, hy, hxy⟩ := ih hx
        exact ⟨y, List.mem_cons_of_mem _ hy, hxy⟩

theorem forall₂_comp {T : β → γ → Prop} {l'' : List γ} (h : List.Forall₂ R l l')
    (h' : List.Forall₂ T l' l'') : List.Forall₂ (Relation.Comp R T) l l'' := by
  induction h generalizing l'' with
  | nil =>
      cases h'
      exact .nil
  | cons hr _ ih =>
      cases h' with
      | cons ht h' => exact .cons ⟨_, hr, ht⟩ (ih h')

end Lists

variable {V V' V'' A A' A'' L : Type}

/-- Applies a vertex map to the references in a value. -/
abbrev mapRef (f : V → V') : A ⊕ V → A ⊕ V' := Sum.map id f

/-- Related data, or a reference and its image. -/
abbrev RelVia (D : A → A' → Prop) (f : V → V') : A ⊕ V → A' ⊕ V' → Prop :=
  Sum.LiftRel D fun v v' => f v = v'

theorem relVia_eq {f : V → V'} {x : A ⊕ V} {y : A ⊕ V'} : RelVia Eq f x y ↔ mapRef f x = y := by
  cases x with
  | inl a => cases y <;> simp
  | inr v => cases y <;> simp

/-- The map `f` takes what `roots` see in `g` to what `roots'` see in `g'`, with the data
related by `D`. -/
structure SimVia (D : A → A' → Prop) (g : Graph V A L) (roots : List (A ⊕ V)) (g' : Graph V' A' L)
    (roots' : List (A' ⊕ V')) (f : V → V') : Prop where
  inj : Set.InjOn f {v | Reach g roots v}
  roots_rel : List.Forall₂ (RelVia D f) roots roots'
  label_eq : ∀ v, Reach g roots v → g'.label (f v) = g.label v
  fields_rel : ∀ v, Reach g roots v → List.Forall₂ (RelVia D f) (g.fields v) (g'.fields (f v))

theorem forall₂_relVia_eq {f : V → V'} {l : List (A ⊕ V)} {l' : List (A ⊕ V')} :
    List.Forall₂ (RelVia Eq f) l l' ↔ l' = l.map (mapRef f) := by
  have hrel : RelVia (A := A) Eq f = fun x y => mapRef f x = y := by
    funext x y
    exact propext relVia_eq
  rw [hrel, ← List.forall₂_map_left_iff, List.forall₂_eq_eq_eq]
  exact eq_comm

/-- The map `f` takes what `roots` see in `g` to what `roots'` see in `g'`: it is injective
on the reachable vertices and keeps the roots, the labels, the data and the references. -/
structure IsoVia (g : Graph V A L) (roots : List (A ⊕ V)) (g' : Graph V' A L)
    (roots' : List (A ⊕ V')) (f : V → V') : Prop where
  inj : Set.InjOn f {v | Reach g roots v}
  roots_eq : roots' = roots.map (mapRef f)
  label_eq : ∀ v, Reach g roots v → g'.label (f v) = g.label v
  fields_eq : ∀ v, Reach g roots v → g'.fields (f v) = (g.fields v).map (mapRef f)

/-- With equal data, similar means isomorphic. -/
theorem simVia_eq_iff {g : Graph V A L} {roots : List (A ⊕ V)} {g' : Graph V' A L}
    {roots' : List (A ⊕ V')} {f : V → V'} :
    SimVia Eq g roots g' roots' f ↔ IsoVia g roots g' roots' f := by
  constructor
  · rintro ⟨hinj, hroots, hlabel, hfields⟩
    exact ⟨hinj, forall₂_relVia_eq.mp hroots, hlabel,
      fun v hv => forall₂_relVia_eq.mp (hfields v hv)⟩
  · rintro ⟨hinj, hroots, hlabel, hfields⟩
    exact ⟨hinj, forall₂_relVia_eq.mpr hroots, hlabel,
      fun v hv => forall₂_relVia_eq.mpr (hfields v hv)⟩

namespace RelVia

variable {D : A → A' → Prop} {f : V → V'} {x : A ⊕ V} {y : A' ⊕ V'}

theorem mono {D' : A → A' → Prop} (hD : ∀ a b, D a b → D' a b) (h : RelVia D f x y) :
    RelVia D' f x y := by
  cases h with
  | inl h => exact .inl (hD _ _ h)
  | inr h => exact .inr h

/-- Only the image of the vertex referred to matters. -/
theorem congr_map {f' : V → V'} (h : RelVia D f x y) (hf : ∀ v, x = .inr v → f' v = f v) :
    RelVia D f' x y := by
  cases h with
  | inl h => exact .inl h
  | inr h => exact .inr ((hf _ rfl).trans h)

theorem comp {D' : A' → A'' → Prop} {f' : V' → V''} {z : A'' ⊕ V''} (h : RelVia D f x y)
    (h' : RelVia D' f' y z) : RelVia (Relation.Comp D D') (f' ∘ f) x z := by
  cases h with
  | inl h =>
      cases h' with
      | inl h' => exact .inl ⟨_, h, h'⟩
  | inr h =>
      cases h' with
      | inr h' =>
          refine .inr ?_
          rw [Function.comp, h, h']

end RelVia

namespace SimVia

variable {D : A → A' → Prop} {g : Graph V A L} {g' : Graph V' A' L} {roots : List (A ⊕ V)}
  {roots' : List (A' ⊕ V')} {f : V → V'} (h : SimVia D g roots g' roots' f)
include h

theorem reach {v : V} (hv : Reach g roots v) : Reach g' roots' (f v) := by
  induction hv with
  | root hr =>
      obtain ⟨y, hy, hrel⟩ := forall₂_mem_left h.roots_rel hr
      cases hrel with
      | inr he => exact .root (he ▸ hy)
  | field hu hf ih =>
      obtain ⟨y, hy, hrel⟩ := forall₂_mem_left (h.fields_rel _ hu) hf
      cases hrel with
      | inr he => exact .field ih (he ▸ hy)

theorem exists_of_reach {v' : V'} (hv : Reach g' roots' v') : ∃ v, Reach g roots v ∧ f v = v' := by
  induction hv with
  | root hr =>
      obtain ⟨x, hx, hrel⟩ := forall₂_mem_left h.roots_rel.flip hr
      cases hrel with
      | inr he => exact ⟨_, .root hx, he⟩
  | field _ hf ih =>
      obtain ⟨u, hu, rfl⟩ := ih
      obtain ⟨x, hx, hrel⟩ := forall₂_mem_left (h.fields_rel u hu).flip hf
      cases hrel with
      | inr he => exact ⟨_, .field hu hx, he⟩

/-- The map is a bijection between the reachable vertices of the two sides. -/
theorem bijOn : Set.BijOn f {v | Reach g roots v} {v' | Reach g' roots' v'} :=
  ⟨fun _ hv => h.reach hv, h.inj, fun _ hv => h.exists_of_reach hv⟩

theorem mono {D' : A → A' → Prop} (hD : ∀ a b, D a b → D' a b) : SimVia D' g roots g' roots' f :=
  ⟨h.inj, h.roots_rel.imp fun _ _ => RelVia.mono hD, h.label_eq,
    fun v hv => (h.fields_rel v hv).imp fun _ _ => RelVia.mono hD⟩

/-- The same map for other roots that were reachable before. -/
theorem reroot {newRoots : List (A ⊕ V)} {newRoots' : List (A' ⊕ V')}
    (hr : ∀ v, Sum.inr v ∈ newRoots → Reach g roots v)
    (hrel : List.Forall₂ (RelVia D f) newRoots newRoots') :
    SimVia D g newRoots g' newRoots' f := by
  have hsub : ∀ v, Reach g newRoots v → Reach g roots v := fun v hv => hv.of_roots hr
  exact ⟨h.inj.mono hsub, hrel, fun v hv => h.label_eq v (hsub v hv),
    fun v hv => h.fields_rel v (hsub v hv)⟩

/-- The same map for graphs that agree with the old ones on the reachable vertices. -/
theorem congr {g₁ : Graph V A L} {g₁' : Graph V' A' L}
    (hlabel : ∀ v, Reach g roots v → g₁.label v = g.label v)
    (hfields : ∀ v, Reach g roots v → g₁.fields v = g.fields v)
    (hlabel' : ∀ v, Reach g roots v → g₁'.label (f v) = g'.label (f v))
    (hfields' : ∀ v, Reach g roots v → g₁'.fields (f v) = g'.fields (f v)) :
    SimVia D g₁ roots g₁' roots' f := by
  have hreach : ∀ v, Reach g₁ roots v → Reach g roots v := fun v hv => (Reach.congr hfields).mp hv
  refine ⟨h.inj.mono hreach, h.roots_rel, fun v hv => ?_, fun v hv => ?_⟩
  · rw [hlabel' v (hreach v hv), h.label_eq v (hreach v hv), hlabel v (hreach v hv)]
  · rw [hfields' v (hreach v hv), hfields v (hreach v hv)]
    exact h.fields_rel v (hreach v hv)

theorem comp {D' : A' → A'' → Prop} {g'' : Graph V'' A'' L} {roots'' : List (A'' ⊕ V'')}
    {f' : V' → V''} (h' : SimVia D' g' roots' g'' roots'' f') :
    SimVia (Relation.Comp D D') g roots g'' roots'' (f' ∘ f) := by
  have hrel : ∀ {l l' l''}, List.Forall₂ (RelVia D f) l l' → List.Forall₂ (RelVia D' f') l' l'' →
      List.Forall₂ (RelVia (Relation.Comp D D') (f' ∘ f)) l l'' := fun hl hl' =>
    (forall₂_comp hl hl').imp fun _ _ ⟨_, hx, hy⟩ => RelVia.comp hx hy
  refine ⟨fun u hu v hv huv => ?_, hrel h.roots_rel h'.roots_rel, fun v hv => ?_, fun v hv => ?_⟩
  · exact h.inj hu hv (h'.inj (h.reach hu) (h.reach hv) huv)
  · exact (h'.label_eq _ (h.reach hv)).trans (h.label_eq v hv)
  · exact hrel (h.fields_rel v hv) (h'.fields_rel _ (h.reach hv))

/-- The inverse map. -/
theorem symm [Nonempty V] : ∃ e : V' → V, SimVia (flip D) g' roots' g roots e ∧
    ∀ v, Reach g roots v → e (f v) = v := by
  have hinv := h.inj.leftInvOn_invFunOn
  have hflip : ∀ {l l'}, (∀ v, Sum.inr v ∈ l → Reach g roots v) → List.Forall₂ (RelVia D f) l l' →
      List.Forall₂ (RelVia (flip D) (Function.invFunOn f {v | Reach g roots v})) l' l := by
    intro l l' hl hrel
    refine forall₂_imp_of_mem hrel.flip fun y _ x hx hxy => ?_
    cases hxy with
    | inl hd => exact .inl hd
    | inr he => exact .inr (he ▸ hinv (hl _ hx))
  refine ⟨Function.invFunOn f {v | Reach g roots v}, ⟨fun u' hu' v' hv' huv => ?_,
    hflip (fun v => .root) h.roots_rel, fun v' hv' => ?_, fun v' hv' => ?_⟩, fun v hv => hinv hv⟩
  · obtain ⟨u, hu, rfl⟩ := h.exists_of_reach hu'
    obtain ⟨v, hv, rfl⟩ := h.exists_of_reach hv'
    rw [hinv hu, hinv hv] at huv
    rw [huv]
  · obtain ⟨v, hv, rfl⟩ := h.exists_of_reach hv'
    rw [hinv hv, h.label_eq v hv]
  · obtain ⟨v, hv, rfl⟩ := h.exists_of_reach hv'
    rw [hinv hv]
    exact hflip (fun u => .field hv) (h.fields_rel v hv)

/-- An isomorphic graph in place of the right one. -/
theorem right {g'' : Graph V'' A' L} {roots'' : List (A' ⊕ V'')} {e : V' → V''}
    (hi : IsoVia g' roots' g'' roots'' e) : SimVia D g roots g'' roots'' (e ∘ f) :=
  (h.comp (simVia_eq_iff.mpr hi)).mono fun _ _ ⟨_, hd, he⟩ => he ▸ hd

/-- An isomorphic graph in place of the left one. -/
theorem left [Nonempty V] {g₀ : Graph V'' A L} {roots₀ : List (A ⊕ V'')} {e : V → V''}
    (hi : IsoVia g roots g₀ roots₀ e) : ∃ f' : V'' → V', SimVia D g₀ roots₀ g' roots' f' ∧
      ∀ v, Reach g roots v → f' (e v) = f v := by
  obtain ⟨back, hback, hinv⟩ := (simVia_eq_iff.mpr hi).symm
  refine ⟨f ∘ back, (hback.comp h).mono fun _ _ ⟨_, he, hd⟩ => he ▸ hd, fun v hv => ?_⟩
  rw [Function.comp, hinv v hv]

/-- A new vertex on each side, with fields that correspond and were reachable before. -/
theorem extend [DecidableEq V] {n : V} {w : V'} {newRoots : List (A ⊕ V)}
    {newRoots' : List (A' ⊕ V')} (hn : ¬ Reach g roots n) (hw : ¬ Reach g' roots' w)
    (hlabel : g'.label w = g.label n) (hold : ∀ v, Sum.inr v ∈ g.fields n → Reach g roots v)
    (hfields : List.Forall₂ (RelVia D f) (g.fields n) (g'.fields w))
    (hr : ∀ v, Sum.inr v ∈ newRoots → v = n ∨ Reach g roots v)
    (hrel : List.Forall₂ (RelVia D (Function.update f n w)) newRoots newRoots') :
    SimVia D g newRoots g' newRoots' (Function.update f n w) := by
  have hreach : ∀ v, Reach g newRoots v → v = n ∨ Reach g roots v := fun _ hv =>
    hv.of_roots_or hold hr
  have hne : ∀ v, Reach g roots v → v ≠ n := fun v hv he => hn (he ▸ hv)
  have hkeep : ∀ {l l'}, (∀ v, Sum.inr v ∈ l → Reach g roots v) → List.Forall₂ (RelVia D f) l l' →
      List.Forall₂ (RelVia D (Function.update f n w)) l l' := fun hl hrel =>
    forall₂_imp_of_mem hrel fun x hx _ _ hxy => hxy.congr_map fun v hv =>
      Function.update_of_ne (hne v (hl v (hv ▸ hx))) _ _
  refine ⟨fun u hu v hv huv => ?_, hrel, fun v hv => ?_, fun v hv => ?_⟩
  · rcases hreach u hu with rfl | hu <;> rcases hreach v hv with rfl | hv
    · rfl
    · rw [Function.update_self, Function.update_of_ne (hne v hv)] at huv
      exact absurd (huv ▸ h.reach hv) hw
    · rw [Function.update_self, Function.update_of_ne (hne u hu)] at huv
      exact absurd (huv ▸ h.reach hu) hw
    · rw [Function.update_of_ne (hne u hu), Function.update_of_ne (hne v hv)] at huv
      exact h.inj hu hv huv
  · rcases hreach v hv with rfl | hv
    · rw [Function.update_self, hlabel]
    · rw [Function.update_of_ne (hne v hv), h.label_eq v hv]
  · rcases hreach v hv with rfl | hv
    · rw [Function.update_self]
      exact hkeep hold hfields
    · rw [Function.update_of_ne (hne v hv)]
      exact hkeep (fun u => .field hv) (h.fields_rel v hv)

end SimVia

/-! ### Isomorphic graphs -/

section Iso

variable {g : Graph V A L} {g' : Graph V' A L} {roots : List (A ⊕ V)} {roots' : List (A ⊕ V')}
  {f : V → V'}

theorem IsoVia.refl (g : Graph V A L) (roots : List (A ⊕ V)) : IsoVia g roots g roots id := by
  have hid : mapRef (A := A) (id : V → V) = id := by
    funext x
    cases x <;> rfl
  exact ⟨Set.injOn_id _, by rw [hid, List.map_id], fun _ _ => rfl, fun v _ => by
    rw [hid, List.map_id]; rfl⟩

theorem IsoVia.mapRef_update [DecidableEq V] {n : V} {w : V'} {x : A ⊕ V} (hx : x ≠ .inr n) :
    mapRef (Function.update f n w) x = mapRef f x := by
  cases x with
  | inl a => rfl
  | inr v =>
      have hv : v ≠ n := fun he => hx (he ▸ rfl)
      simp [mapRef, Function.update_of_ne hv]

namespace IsoVia

variable (h : IsoVia g roots g' roots' f)
include h

theorem sim : SimVia Eq g roots g' roots' f := simVia_eq_iff.mpr h

theorem reach {v : V} (hv : Reach g roots v) : Reach g' roots' (f v) := h.sim.reach hv

theorem exists_of_reach {v' : V'} (hv : Reach g' roots' v') : ∃ v, Reach g roots v ∧ f v = v' :=
  h.sim.exists_of_reach hv

theorem bijOn : Set.BijOn f {v | Reach g roots v} {v' | Reach g' roots' v'} := h.sim.bijOn

theorem reroot {newRoots : List (A ⊕ V)} (hr : ∀ v, Sum.inr v ∈ newRoots → Reach g roots v) :
    IsoVia g newRoots g' (newRoots.map (mapRef f)) f :=
  simVia_eq_iff.mp (h.sim.reroot hr (forall₂_relVia_eq.mpr rfl))

theorem comp {g'' : Graph V'' A L} {roots'' : List (A ⊕ V'')} {f' : V' → V''}
    (h' : IsoVia g' roots' g'' roots'' f') : IsoVia g roots g'' roots'' (f' ∘ f) := by
  have hsim := h.sim.comp h'.sim
  rw [Relation.eq_comp] at hsim
  exact simVia_eq_iff.mp hsim

theorem congr {g₁ : Graph V A L} {g₁' : Graph V' A L}
    (hlabel : ∀ v, Reach g roots v → g₁.label v = g.label v)
    (hfields : ∀ v, Reach g roots v → g₁.fields v = g.fields v)
    (hlabel' : ∀ v, Reach g roots v → g₁'.label (f v) = g'.label (f v))
    (hfields' : ∀ v, Reach g roots v → g₁'.fields (f v) = g'.fields (f v)) :
    IsoVia g₁ roots g₁' roots' f :=
  simVia_eq_iff.mp (h.sim.congr hlabel hfields hlabel' hfields')

/-- A new vertex on each side, with fields that correspond and were reachable before. -/
theorem extend [DecidableEq V] {n : V} {w : V'} {newRoots : List (A ⊕ V)}
    (hn : ¬ Reach g roots n) (hw : ¬ Reach g' roots' w) (hlabel : g'.label w = g.label n)
    (hold : ∀ v, Sum.inr v ∈ g.fields n → Reach g roots v)
    (hfields : g'.fields w = (g.fields n).map (mapRef f))
    (hr : ∀ v, Sum.inr v ∈ newRoots → v = n ∨ Reach g roots v) :
    IsoVia g newRoots g' (newRoots.map (mapRef (Function.update f n w)))
      (Function.update f n w) := by
  have hsim := h.sim.extend hn hw hlabel hold (forall₂_relVia_eq.mpr hfields) hr
    (forall₂_relVia_eq.mpr rfl)
  exact simVia_eq_iff.mp hsim

/-- Both sides reach equally many vertices. -/
theorem ncard_eq : {v' | Reach g' roots' v'}.ncard = {v | Reach g roots v}.ncard := by
  rw [← h.bijOn.image_eq, h.inj.ncard_image]

end IsoVia

end Iso

end RootedGraph
