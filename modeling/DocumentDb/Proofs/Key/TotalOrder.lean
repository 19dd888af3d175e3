/-
  DocumentDb — the keys of one index are totally ordered.

  * `KeySpec.Makes`: the generator of some document makes a key for a specification.  Such keys have
    the directions of its fields (`Makes.directions`), and only keys of the same directions compare
    alike both ways round.
  * `CompositeKey.compare_eq_iff_values`: two keys are equal when their values are, one
    after the other.
  * **`KeySpec.keys_total_order`**: the keys made for a specification are totally ordered, and their
    equality is that of their parts, whatever the directions.
-/
import DocumentDb.Proofs.Key.Odometer

namespace DocumentDb

namespace KeySpec

/-- The generator of some document makes a key. -/
def Makes (spec : KeySpec) (key : CompositeKey) : Prop :=
  ∃ d keys, (spec.realize d).Yields keys ∧ key ∈ keys

variable {spec : KeySpec} {key : CompositeKey}

theorem makes_iff : spec.Makes key ↔ ∃ d, key ∈ spec.keys d := by
  constructor
  · rintro ⟨d, keys, hyields, hkey⟩
    exact ⟨d, hyields.unique (spec.realize_yields d) ▸ hkey⟩
  · rintro ⟨d, hkey⟩
    exact ⟨d, _, spec.realize_yields d, hkey⟩

theorem Makes.directions (h : spec.Makes key) : key.directions = spec.directions := by
  obtain ⟨d, hkey⟩ := makes_iff.1 h
  exact directions_of_mem_keys hkey

end KeySpec

section
variable [Collator] [Std.TransCmp Collator.weigh]

namespace CompositeKey

/-- Keys are equal when their values are, so their directions do not count. -/
theorem compare_eq_iff_values {a b : CompositeKey} :
    a.compare b = .eq ↔ List.Forall₂ (fun v w => (v == w) = true) a.values b.values := by
  rw [← beq_iff_compare, beq_iff, values, values, List.forall₂_map_left_iff,
    List.forall₂_map_right_iff]

end CompositeKey

namespace KeySpec

/-- **The keys that are made for one specification are totally ordered, whatever the directions of
    its fields.  Two of them compare as equal when they agree part by part, and so do keys of any
    directions with the same values.** -/
theorem keys_total_order (spec : KeySpec) :
    (∀ a, spec.Makes a → a.compare a = .eq) ∧
    (∀ a b, spec.Makes a → spec.Makes b → b.compare a = (a.compare b).swap) ∧
    (∀ a b, spec.Makes a → spec.Makes b → (a.compare b).isLE ∨ (b.compare a).isLE) ∧
    (∀ a b, spec.Makes a → spec.Makes b → (a.compare b).isLE → (b.compare a).isLE →
      (a == b) = true) ∧
    (∀ a b c, spec.Makes a → spec.Makes b → spec.Makes c →
      (a.compare b).isLE → (b.compare c).isLE → (a.compare c).isLE) ∧
    (∀ a b, spec.Makes a → spec.Makes b → (a.compare b = .eq ↔
      List.Forall₂ (fun part part' => (part.value == part'.value) = true) a.parts b.parts)) ∧
    ∀ a b a' b' : CompositeKey, spec.Makes a → spec.Makes b → a'.values = a.values →
      b'.values = b.values →
      (a'.compare b' = .eq ↔ a.compare b = .eq) := by
  have hswap : ∀ a b, spec.Makes a → spec.Makes b → b.compare a = (a.compare b).swap :=
    fun a b ha hb => CompositeKey.compare_swap (hb.directions.trans ha.directions.symm)
  refine ⟨?refl, hswap, ?total, ?antisymm, ?trans, ?parts, ?directions⟩
  case refl =>
    intro a _
    exact CompositeKey.beq_iff_compare.1 BEq.rfl
  case total =>
    intro a b ha hb
    rw [hswap a b ha hb]
    exact Chain.isLE_or_isLE_swap _
  case antisymm =>
    intro a b ha hb hab hba
    rw [hswap a b ha hb] at hba
    exact CompositeKey.beq_iff_compare.2 (Ordering.eq_eq_of_isLE_of_isLE_swap hab hba)
  case trans =>
    intro a b c ha hb hc
    have hchain := CompositeKey.compare_chain (ha.directions.trans hb.directions.symm)
      (hb.directions.trans hc.directions.symm)
    exact hchain.isLE_trans
  case parts =>
    intro a b _ _
    exact CompositeKey.beq_iff_compare.symm.trans CompositeKey.beq_iff
  case directions =>
    intro a b a' b' _ _ ha hb
    rw [CompositeKey.compare_eq_iff_values, CompositeKey.compare_eq_iff_values, ha, hb]

end KeySpec

end

namespace KeySpec

/-- Large widths come first, and under one width the colours in their order. -/
def byWidthAndColour : KeySpec :=
  ⟨[⟨"width", .descending, by decide⟩, ⟨"colour", .ascending, by decide⟩], false,
    "byWidthAndColour", List.cons_ne_nil _ _, by decide⟩

/-- The key of a width and a colour, in the given directions. -/
def wideKey (width : Number) (widths colours : Direction) : CompositeKey :=
  ⟨[⟨.number width, widths⟩, ⟨.text "red", colours⟩]⟩

theorem makes_wideKey (width : Number) :
    byWidthAndColour.Makes (wideKey width .descending .ascending) := by
  have hkeys : byWidthAndColour.keys (.ofList [("width", .number width), ("colour", .text "red")]) =
      [wideKey width .descending .ascending] := rfl
  exact makes_iff.2 ⟨_, hkeys ▸ List.mem_singleton_self _⟩

/-- The width two as a float is the integer width two, also where small widths come first. -/
theorem wideKeys_total_order :
    let three := wideKey (.int 3) .descending .ascending
    let two := wideKey (.int 2) .descending .ascending
    let floatTwo := wideKey (.float ⟨0x4000000000000000⟩) .descending .ascending
    (three.compare two).isLE ∧ (two.compare floatTwo).isLE ∧ (three.compare floatTwo).isLE ∧
      (floatTwo.compare two).isLE ∧ (two == floatTwo) = true ∧
      (wideKey (.int 2) .ascending .descending).compare
        (wideKey (.float ⟨0x4000000000000000⟩) .ascending .descending) = .eq := by
  intro three two floatTwo
  obtain ⟨-, -, -, hantisymm, htrans, -, hdirections⟩ := keys_total_order byWidthAndColour
  have hthree : byWidthAndColour.Makes three := makes_wideKey _
  have htwo : byWidthAndColour.Makes two := makes_wideKey _
  have hfloat : byWidthAndColour.Makes floatTwo := makes_wideKey _
  have hfirst : (three.compare two).isLE := by decide +kernel
  have hthen : (two.compare floatTwo).isLE := by decide +kernel
  have hback : (floatTwo.compare two).isLE := by decide +kernel
  have hequal : (two == floatTwo) = true := hantisymm two floatTwo htwo hfloat hthen hback
  have hsame : two.compare floatTwo = .eq := CompositeKey.beq_iff_compare.1 hequal
  have hturned := (hdirections two floatTwo (wideKey (.int 2) .ascending .descending)
    (wideKey (.float ⟨0x4000000000000000⟩) .ascending .descending) htwo hfloat rfl rfl).2 hsame
  exact ⟨hfirst, hthen, htrans three two floatTwo hthree htwo hfloat hfirst hthen, hback, hequal,
    hturned⟩

end KeySpec

end DocumentDb
