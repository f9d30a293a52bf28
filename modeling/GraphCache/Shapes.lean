import GraphCache.Decisions

/-!
# Shapes

Where shapes differ, `decide_compatibility` looks for the dynamic constraint of the candidate. It
asks the input shapes alone, and it is content with equal dims there, whatever `dynamic` and
`max_rank` say of the two.

`shapes_sound_iff` : so a decision vouches for the shapes except where a difference is accepted as a
dynamic one, and the output shapes do not fit, or two input shapes of equal dims are told apart by
the rest and the candidate's is not dynamic.
-/

namespace GraphCache

/-- The request has the candidate's shape, or one within its dynamic constraint. -/
def ShapeSound (r c : ShapeDescriptor) : Prop :=
  r = c ∨ c.dynamic = true ∧ r.dims.length ≤ c.maxRank.toNat

instance (r c : ShapeDescriptor) : Decidable (ShapeSound r c) :=
  inferInstanceAs (Decidable (_ ∨ _))

/-- As many shapes, and each of them sound. -/
def ShapesSound (req cand : List ShapeDescriptor) : Prop :=
  List.Forall₂ ShapeSound req cand

theorem shapesSound_iff {req cand : List ShapeDescriptor} : ShapesSound req cand ↔
    req.length = cand.length ∧ ∀ r c, (r, c) ∈ req.zip cand → ShapeSound r c :=
  List.forall₂_iff_zip.trans (and_congr_right fun _ => ⟨fun h _ _ => h, fun h _ _ => h _ _⟩)

instance (req cand : List ShapeDescriptor) : Decidable (ShapesSound req cand) :=
  inferInstanceAs (Decidable (List.Forall₂ ShapeSound req cand))

theorem shapesSound_refl (shapes : List ShapeDescriptor) : ShapesSound shapes shapes :=
  List.forall₂_same.mpr fun _ _ => .inl rfl

/-- Where the dims differ a shape that fits is sound. -/
theorem shapeFits_iff {r c : ShapeDescriptor} :
    shapeFits r c = true ↔ r.dims = c.dims ∨ ShapeSound r c := by
  simp only [shapeFits, ShapeSound, Bool.or_eq_true, decide_eq_true_eq, Bool.and_eq_true, ge_iff_le]
  constructor
  · exact Or.imp_right .inr
  · rintro (hdims | rfl | hdyn)
    · exact .inl hdims
    · exact .inl rfl
    · exact .inr hdyn

/-- The shapes that a dynamic constraint accepts are sound where those of equal dims are. -/
theorem DynamicShapes.sound_iff {req cand : List ShapeDescriptor} (h : DynamicShapes req cand) :
    ShapesSound req cand ↔
      ∀ r c, (r, c) ∈ req.zip cand → r.dims = c.dims → ShapeSound r c := by
  obtain ⟨hlength, hfits, -⟩ := h
  rw [List.all_eq_true] at hfits
  rw [shapesSound_iff, and_iff_right hlength.symm]
  refine forall_congr' fun r => forall_congr' fun c => forall_congr' fun hmem => ?_
  rcases shapeFits_iff.mp (hfits (r, c) hmem) with hdims | hsound
  · exact ⟨fun hs _ => hs, fun hs => hs hdims⟩
  · exact iff_of_true hsound fun _ => hsound

variable {req cand : CompatibilityFacts} {policy : GraphCompatibilityPolicy}

/-- The facts without their shapes. -/
def CompatibilityFacts.shapeless (f : CompatibilityFacts) : CompatibilityFacts :=
  { f with inputShapes := [], outputShapes := [] }

/-- The shapes and every other domain. -/
theorem accepts_shapes : Accepts req cand policy ↔
    (req.inputShapes = cand.inputShapes ∧ req.outputShapes = cand.outputShapes ∨
      policy.allowDynamicShape = true ∧ DynamicShapes req.inputShapes cand.inputShapes) ∧
      Accepts req.shapeless cand.shapeless policy := by
  constructor
  · intro h
    exact ⟨h.shapes, { h with shapes := .inl ⟨rfl, rfl⟩ }⟩
  · rintro ⟨hshapes, h⟩
    exact { h with shapes := hshapes }

/-- A decision vouches for the shapes except where a dynamic constraint lets through what it does
not look at. -/
theorem shapes_sound_iff (req cand : CompatibilityFacts) (policy : GraphCompatibilityPolicy) :
    ((decideCompatibility req cand policy).compatible = true →
      ShapesSound req.inputShapes cand.inputShapes ∧
        ShapesSound req.outputShapes cand.outputShapes) ↔
    (Accepts req.shapeless cand.shapeless policy → policy.allowDynamicShape = true →
      DynamicShapes req.inputShapes cand.inputShapes →
        (∀ r c, (r, c) ∈ req.inputShapes.zip cand.inputShapes → r.dims = c.dims →
          ShapeSound r c) ∧
        ShapesSound req.outputShapes cand.outputShapes) := by
  rw [decideCompatibility_compatible, accepts_shapes]
  constructor
  · intro h hrest hallow hdyn
    obtain ⟨hin, hout⟩ := h ⟨.inr ⟨hallow, hdyn⟩, hrest⟩
    exact ⟨hdyn.sound_iff.mp hin, hout⟩
  · rintro h ⟨⟨hin, hout⟩ | ⟨hallow, hdyn⟩, hrest⟩
    · rw [hin, hout]
      exact ⟨shapesSound_refl _, shapesSound_refl _⟩
    · obtain ⟨hin, hout⟩ := h hrest hallow hdyn
      exact ⟨hdyn.sound_iff.mpr hin, hout⟩

/-- Other outputs beside the same inputs are accepted, and so are inputs that were dynamic. -/
theorem shapes_unsound :
    let fixed : CompatibilityFacts := { inputShapes := [{ dims := [4] }] }
    let dyn : CompatibilityFacts := { inputShapes := [{ dims := [4], dynamic := true }] }
    let scalar : CompatibilityFacts := { fixed with outputShapes := [{}] }
    ((decideCompatibility scalar fixed {}).compatible = true ∧
        ¬ShapesSound scalar.outputShapes fixed.outputShapes) ∧
      (decideCompatibility dyn fixed {}).compatible = true ∧
        ¬ShapesSound dyn.inputShapes fixed.inputShapes := by
  decide

end GraphCache
