import IndexAccess.Collation
import Mathlib.Data.Char
import Mathlib.Data.List.Forall2

/-!
# Families of collations

Compatibility by family is an equivalence of collations.  A name is compatible with itself whether
it is listed or not, and a listed one with its family, so the test is transitive only because no
name is listed in two families.  This is what makes an index under one collation certify equality
under another, whichever names lie between them.

Names are given in any letter case.  The families list them as they are kept, in lower case, so
that every spelling of a listed name is recognised.
-/

namespace IndexAccess

/-! ## Letter case -/

/-- A capital ASCII letter and the small one. -/
def Capitalizes (capital small : Char) : Prop :=
  'A'.toNat ≤ capital.toNat ∧ capital.toNat ≤ 'Z'.toNat ∧ small.toNat = capital.toNat + 32

/-- The same character but for the case of an ASCII letter. -/
def SameLetter (left right : Char) : Prop :=
  left = right ∨ Capitalizes left right ∨ Capitalizes right left

/-- The same text but for the case of ASCII letters. -/
def SameSpelling (left right : String) : Prop :=
  List.Forall₂ SameLetter left.toList right.toList

instance (capital small : Char) : Decidable (Capitalizes capital small) :=
  inferInstanceAs (Decidable (_ ∧ _ ∧ _))

instance : DecidableRel SameLetter := fun left right ↦
  inferInstanceAs (Decidable (left = right ∨ Capitalizes left right ∨ Capitalizes right left))

instance (left right : String) : Decidable (SameSpelling left right) :=
  inferInstanceAs (Decidable (List.Forall₂ SameLetter left.toList right.toList))

theorem toNat_toLower (c : Char) :
    c.toLower.toNat = if 65 ≤ c.toNat ∧ c.toNat ≤ 90 then c.toNat + 32 else c.toNat := by
  have hcapital : c.val ≥ 'A'.val ∧ c.val ≤ 'Z'.val ↔ 65 ≤ c.toNat ∧ c.toNat ≤ 90 := by
    rw [ge_iff_le, UInt32.le_iff_toNat_le, UInt32.le_iff_toNat_le]
    rfl
  unfold Char.toLower
  split
  · next h =>
    have hbounds := hcapital.mp h
    have hfits : c.toNat + 32 < UInt32.size :=
      Nat.lt_of_le_of_lt (Nat.add_le_add_right hbounds.2 32) (by decide)
    rw [if_pos hbounds]
    exact (UInt32.toNat_add ..).trans (Nat.mod_eq_of_lt hfits)
  · next h => rw [if_neg (mt hcapital.mpr h)]

/-- Two characters are in lower case the same exactly when they are the same letter. -/
theorem toLower_eq_iff {left right : Char} :
    left.toLower = right.toLower ↔ SameLetter left right := by
  have hA : 'A'.toNat = 65 := rfl
  have hZ : 'Z'.toNat = 90 := rfl
  unfold SameLetter Capitalizes
  rw [← Char.toNat_inj, ← Char.toNat_inj, toNat_toLower, toNat_toLower, hA, hZ]
  split <;> split <;> omega

namespace Collation

theorem ofName_eq_iff {left right : String} :
    ofName left = ofName right ↔ SameSpelling left right := by
  calc ofName left = ofName right
    _ ↔ left.toList.map Char.toLower = right.toList.map Char.toLower := by
      rw [ofName, ofName, mk.injEq, ← String.toList_inj, String.toList_map, String.toList_map]
    _ ↔ List.Forall₂ (fun c d ↦ Char.toLower c = Char.toLower d) left.toList right.toList := by
      rw [← List.forall₂_eq_eq_eq, List.forall₂_map_left_iff, List.forall₂_map_right_iff]
    _ ↔ SameSpelling left right := by
      simp only [toLower_eq_iff, SameSpelling]

end Collation

namespace Compatibility

/-! ## Families -/

theorem byFamily_eq_true_iff {left right : Collation} :
    byFamily left right = true ↔
      left = right ∨ ∃ family ∈ families, left.name ∈ family ∧ right.name ∈ family := by
  simp [byFamily]

theorem exact_eq_true_iff {left right : Collation} : exact left right = true ↔ left = right :=
  beq_iff_eq

/-- No name is listed in two families. -/
theorem eq_of_mem_families : ∀ family ∈ families, ∀ other ∈ families, ∀ name ∈ family,
    name ∈ other → family = other := by
  decide

/-- The listed names are kept as they are listed. -/
theorem ofName_of_mem_families {family : List String} (hfamily : family ∈ families)
    {name : String} (hname : name ∈ family) : Collation.ofName name = ⟨name⟩ := by
  have hlower : ∀ family ∈ families, ∀ name ∈ family,
      name.toList.map Char.toLower = name.toList := by decide
  have hlist := hlower family hfamily name hname
  rw [← String.toList_map, String.toList_inj] at hlist
  exact congrArg Collation.mk hlist

theorem equivalence_byFamily : Equivalence fun left right ↦ byFamily left right = true where
  refl := fun collation ↦ byFamily_eq_true_iff.mpr (.inl rfl)
  symm := by
    intro left right h
    rw [byFamily_eq_true_iff] at h ⊢
    refine h.imp Eq.symm ?_
    rintro ⟨family, hfamily, hleft, hright⟩
    exact ⟨family, hfamily, hright, hleft⟩
  trans := by
    intro first second third h h'
    rw [byFamily_eq_true_iff] at h h' ⊢
    rcases h with rfl | ⟨family, hfamily, hfirst, hsecond⟩
    · exact h'
    · rcases h' with rfl | ⟨other, hother, hsecond', hthird⟩
      · exact .inr ⟨family, hfamily, hfirst, hsecond⟩
      · -- The name between them leads to the same family on both sides.
        obtain rfl := eq_of_mem_families family hfamily other hother second.name hsecond hsecond'
        exact .inr ⟨family, hfamily, hfirst, hthird⟩

/-- A given name belongs to a family when it spells a name listed there. -/
theorem ofName_mem_iff {family : List String} (hfamily : family ∈ families) {given : String} :
    (Collation.ofName given).name ∈ family ↔ ∃ name ∈ family, SameSpelling given name := by
  constructor
  · intro hmem
    refine ⟨_, hmem, ?_⟩
    rw [← Collation.ofName_eq_iff, ofName_of_mem_families hfamily hmem]
  · rintro ⟨name, hname, hspelling⟩
    rw [Collation.ofName_eq_iff.mpr hspelling, ofName_of_mem_families hfamily hname]
    exact hname

/-- Two given names are compatible when they spell the same name or two names of one family. -/
theorem byFamily_ofName_eq_true_iff {left right : String} :
    byFamily (.ofName left) (.ofName right) = true ↔
      SameSpelling left right ∨ ∃ family ∈ families,
        (∃ name ∈ family, SameSpelling left name) ∧ ∃ name ∈ family, SameSpelling right name := by
  rw [byFamily_eq_true_iff, Collation.ofName_eq_iff]
  apply or_congr_right
  apply exists_congr
  intro family
  apply and_congr_right
  intro hfamily
  rw [ofName_mem_iff hfamily, ofName_mem_iff hfamily]

/-- Compatibility by family is an equivalence of all collations there can be.  It joins each one to
itself, as the exact test does, and the names of each family, and nothing else.  For given names the
letter case does not matter, neither for the names themselves nor for those listed. -/
theorem byFamily_classes :
    Equivalence (fun left right ↦ byFamily left right = true) ∧
      (∀ left right, exact left right = true → byFamily left right = true) ∧
      (∀ left right, byFamily left right = true → left ≠ right →
        ∃ family ∈ families, left.name ∈ family ∧ right.name ∈ family) ∧
      (∀ left right left' right', SameSpelling left left' → SameSpelling right right' →
        byFamily (.ofName left) (.ofName right) = byFamily (.ofName left') (.ofName right')) ∧
      ∀ left right, byFamily (.ofName left) (.ofName right) = true ↔
        SameSpelling left right ∨ ∃ family ∈ families,
          (∃ name ∈ family, SameSpelling left name) ∧
            ∃ name ∈ family, SameSpelling right name := by
  refine ⟨equivalence_byFamily, ?_, ?_, ?_, fun _ _ ↦ byFamily_ofName_eq_true_iff⟩
  · intro left right hexact
    exact byFamily_eq_true_iff.mpr (.inl (exact_eq_true_iff.mp hexact))
  · intro left right hjoined hne
    exact (byFamily_eq_true_iff.mp hjoined).resolve_left hne
  · intro left right left' right' hleft hright
    rw [Collation.ofName_eq_iff.mpr hleft, Collation.ofName_eq_iff.mpr hright]

theorem byFamily_classes_mixedCase :
    exact ⟨"gbk_bin"⟩ ⟨"gbk_bin"⟩ = true ∧ byFamily ⟨"gbk_bin"⟩ ⟨"gbk_bin"⟩ = true ∧
      byFamily ⟨"utf8_bin"⟩ ⟨"binary"⟩ = true ∧ (⟨"utf8_bin"⟩ : Collation) ≠ ⟨"binary"⟩ ∧
      (∃ family ∈ families, "utf8_bin" ∈ family ∧ "binary" ∈ family) ∧
      SameSpelling "Latin1_BIN" "latin1_bin" ∧ SameSpelling "utf8mb4_bin" "UTF8MB4_Bin" ∧
      byFamily (.ofName "Latin1_BIN") (.ofName "utf8mb4_bin") =
        byFamily (.ofName "latin1_bin") (.ofName "UTF8MB4_Bin") := by
  obtain ⟨-, hexact, hjoined, hspelling, -⟩ := byFamily_classes
  have hleft : SameSpelling "Latin1_BIN" "latin1_bin" := by decide
  have hright : SameSpelling "utf8mb4_bin" "UTF8MB4_Bin" := by decide
  exact ⟨rfl, hexact _ _ rfl, rfl, by decide, hjoined ⟨"utf8_bin"⟩ ⟨"binary"⟩ rfl (by decide),
    hleft, hright, hspelling _ _ _ _ hleft hright⟩

end Compatibility

end IndexAccess
