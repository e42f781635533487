import SignalGraph.Proofs.Analysis.Expansion.Declarations

namespace SignalGraph
namespace Catalog

variable {c c' c₁ c₂ : Catalog} {decl : CustomBlock} {blocks blocks₁ blocks₂ : List CustomBlock}
  {kind : KindId}
variable {b : Block}

theorem find?_addCustom_of_ofCustom (h : c.addCustom decl = .ok c') : c.find? decl.id = none ∧
    ∃ b, Block.ofCustom decl = .ok b ∧
      ∀ kind, c'.find? kind = if decl.id = kind then some b else c.find? kind := by
  obtain ⟨hfresh, b, hid, -, hfind⟩ := find?_addCustom h
  obtain ⟨b', hb', hinsert⟩ := Outcome.bind_eq_ok.mp h
  have hlast : c'.find? decl.id = some b' := by
    rw [find?, blocks_of_insert hinsert, List.find?_cons, show b'.id = decl.id from ?_]
    · simp
    · obtain ⟨_, -, hb'⟩ := Outcome.bind_eq_ok.mp hb'
      cases hb'
      rfl
  rw [hfind, if_pos rfl] at hlast
  cases hlast
  exact ⟨hfresh, b, hb', hfind⟩

/-- With custom blocks added, a catalog has these besides what it had. -/
theorem find?_addAll (h : blocks.foldlM addCustom c = .ok c') : c'.find? kind = some b ↔
    c.find? kind = some b ∨ ∃ decl ∈ blocks, decl.id = kind ∧ Block.ofCustom decl = .ok b := by
  refine Outcome.foldlM_induct_all (fun done c' => c'.find? kind = some b ↔
    c.find? kind = some b ∨ ∃ decl ∈ done, decl.id = kind ∧ Block.ofCustom decl = .ok b) h (by simp)
    fun done decl _ _ mid mid' hmid hadd => ?_
  obtain ⟨hfresh, b', hb', hfind⟩ := find?_addCustom_of_ofCustom hadd
  simp only [hfind, List.mem_append, List.mem_singleton, or_and_right, exists_or,
    exists_eq_left, ← or_assoc,
    ← hmid]
  by_cases hid : decl.id = kind
  · subst hid
    simp [hfresh, hb']
  · simp [hid]

theorem mem_blocks_addAll (h : blocks.foldlM addCustom c = .ok c') (hb : b ∈ c'.blocks) :
    b ∈ c.blocks ∨ ∃ decl ∈ blocks, Block.ofCustom decl = .ok b := by
  revert hb
  refine Outcome.foldlM_induct
    (fun c' => b ∈ c'.blocks → b ∈ c.blocks ∨ ∃ decl ∈ blocks, Block.ofCustom decl = .ok b) h .inl
    fun decl hdecl mid mid' hmid hadd hb => ?_
  obtain ⟨b', hb', hinsert⟩ := Outcome.bind_eq_ok.mp hadd
  rw [blocks_of_insert hinsert, List.mem_cons] at hb
  rcases hb with rfl | hb
  · exact .inr ⟨decl, hdecl, hb'⟩
  · exact hmid hb

/-- The numbers of the blocks that are added were free. -/
theorem fresh_of_addAll (h : blocks.foldlM addCustom c = .ok c') (hdecl : decl ∈ blocks) :
    c.find? decl.id = none ∧ ∃ b, Block.ofCustom decl = .ok b ∧ c'.find? decl.id = some b := by
  have hall := h
  obtain ⟨before, after, rfl⟩ := List.append_of_mem hdecl
  rw [List.foldlM_append] at h
  obtain ⟨mid, hmid, h⟩ := Outcome.bind_eq_ok.mp h
  rw [List.foldlM_cons] at h
  obtain ⟨mid', hadd, -⟩ := Outcome.bind_eq_ok.mp h
  obtain ⟨hfresh, b, hb, -⟩ := find?_addCustom_of_ofCustom hadd
  refine ⟨Option.eq_none_iff_forall_ne_some.mpr fun b' hb' => ?_, b, hb,
    (find?_addAll hall).mpr (.inr ⟨decl, hdecl, rfl, hb⟩)⟩
  exact nomatch hfresh.symm.trans ((find?_addAll hmid).mpr (.inl hb'))

/-- What is found with some custom blocks is found with more. -/
theorem find?_mono (h₁ : blocks₁.foldlM addCustom c = .ok c₁)
    (h₂ : blocks₂.foldlM addCustom c = .ok c₂)
    (hsub : ∀ decl ∈ blocks₁, decl ∈ blocks₂) (h : c₁.find? kind = some b) :
    c₂.find? kind = some b := by
  rcases (find?_addAll h₁).mp h with h | ⟨decl, hdecl, hid, hb⟩
  · exact (find?_addAll h₂).mpr (.inl h)
  · exact (find?_addAll h₂).mpr (.inr ⟨decl, hsub decl hdecl, hid, hb⟩)

end Catalog
end SignalGraph
