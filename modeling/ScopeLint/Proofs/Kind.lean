import ScopeLint.Rule.Kind

/-!
# Sets of kinds and what they include

A scope is of one kind only once its kind is settled, so that two sets ask for it only if they have
a kind in common. A rule looks at no scopes beyond those it is set to.
-/

namespace ScopeLint

namespace KindSet

theorem includes_iff {s t : KindSet} :
    s.includes t = true ↔ ∀ i, t.bits.getLsbD i = true → s.bits.getLsbD i = true := by
  have hbits : s.includes t = true ↔ s.bits &&& t.bits = t.bits := by
    rw [includes, beq_iff_eq, KindSet.ext_iff]
    rfl
  rw [hbits]
  constructor
  · intro h i hi
    rw [← h, BitVec.getLsbD_and, Bool.and_eq_true] at hi
    exact hi.1
  · intro h
    apply BitVec.eq_of_getLsbD_eq
    intro i _
    rw [BitVec.getLsbD_and, Bool.eq_iff_iff, Bool.and_eq_true]
    exact ⟨And.right, fun hi => ⟨h i hi, hi⟩⟩

theorem meets_iff {s t : KindSet} :
    s.meets t = true ↔ ∃ i, s.bits.getLsbD i = true ∧ t.bits.getLsbD i = true := by
  have hbits : s.meets t = true ↔ s.bits &&& t.bits ≠ 0#15 := by
    rw [meets, bne_iff_ne, ne_eq, KindSet.ext_iff]
    rfl
  rw [hbits]
  constructor
  · intro h
    refine Classical.byContradiction fun hnone => h ?_
    apply BitVec.eq_of_getLsbD_eq
    intro i _
    rw [BitVec.getLsbD_and, BitVec.getLsbD_zero, Bool.eq_false_iff, ne_eq, Bool.and_eq_true]
    exact fun hi => hnone ⟨i, hi⟩
  · rintro ⟨i, hs, ht⟩ h
    have hi := congrArg (BitVec.getLsbD · i) h
    simp [hs, ht] at hi

theorem meets_comm (s t : KindSet) : s.meets t = t.meets s := by
  rw [Bool.eq_iff_iff, meets_iff, meets_iff]
  simp only [And.comm]

theorem meets_mono {s s' t t' : KindSet} (hs : s'.includes s = true) (ht : t'.includes t = true)
    (h : s.meets t = true) : s'.meets t' = true := by
  obtain ⟨i, hi, hi'⟩ := meets_iff.mp h
  exact meets_iff.mpr ⟨i, includes_iff.mp hs i hi, includes_iff.mp ht i hi'⟩

/-! ## The scopes of a rule -/

theorem all_includes_usual (k : RuleKind) : KindSet.all.includes k.profile.usual = true := by
  cases k <;> decide

/-- Setting a rule to all scopes lets it choose among them, and no rule goes beyond what it is set
to. -/
theorem includes_applicable {wanted usual : KindSet} (husual : KindSet.all.includes usual = true)
    (ignored : KindSet) : wanted.includes (applicable wanted usual ignored) = true := by
  rw [includes_iff]
  intro i hi
  have hkept : (if wanted.includes .all then usual else wanted).bits.getLsbD i = true := by
    have hand : ((if wanted.includes .all then usual else wanted).bits &&&
        ~~~ignored.bits).getLsbD i = true := hi
    rw [BitVec.getLsbD_and, Bool.and_eq_true] at hand
    exact hand.1
  split at hkept
  · rename_i hall
    exact includes_iff.mp hall i (includes_iff.mp husual i hkept)
  · exact hkept

end KindSet

/-! ## Settled kinds -/

namespace Kind

theorem isUnresolved_eq_false_iff {k : Kind} :
    k.isUnresolved = false ↔ k ≠ .anyFunction ∧ k ≠ .anyVariable := by
  cases k <;> simp [isUnresolved]

theorem exists_asSet_eq {k : Kind} (h : k.isUnresolved = false) :
    ∃ i, k.asSet.bits = BitVec.twoPow 15 i := by
  cases k with
  | source => exact ⟨0, rfl⟩
  | namespaceBlock => exact ⟨1, rfl⟩
  | classBlock => exact ⟨2, rfl⟩
  | enumBlock => exact ⟨3, rfl⟩
  | anyFunction => cases h
  | freeFunction => exact ⟨4, rfl⟩
  | classFunction => exact ⟨5, rfl⟩
  | conditional => exact ⟨6, rfl⟩
  | anyVariable => cases h
  | classVariable => exact ⟨7, rfl⟩
  | functionVariable => exact ⟨8, rfl⟩
  | globalVariable => exact ⟨9, rfl⟩
  | globalDefine => exact ⟨10, rfl⟩
  | singleLineComment => exact ⟨11, rfl⟩
  | multiLineComment => exact ⟨12, rfl⟩
  | stringLiteral => exact ⟨13, rfl⟩
  | unknown => exact ⟨14, rfl⟩

theorem meets_of_isOf {k : Kind} (hk : k.isUnresolved = false) {s t : KindSet}
    (hs : k.isOf s = true) (ht : k.isOf t = true) : s.meets t = true := by
  obtain ⟨bit, hbit⟩ := exists_asSet_eq hk
  obtain ⟨i, hi, his⟩ := KindSet.meets_iff.mp hs
  obtain ⟨j, hj, hjt⟩ := KindSet.meets_iff.mp ht
  rw [hbit, BitVec.getLsbD_twoPow, Bool.and_eq_true] at hi hj
  obtain rfl : bit = i := of_decide_eq_true hi.2
  obtain rfl : bit = j := of_decide_eq_true hj.2
  exact KindSet.meets_iff.mpr ⟨bit, his, hjt⟩

end Kind

end ScopeLint
