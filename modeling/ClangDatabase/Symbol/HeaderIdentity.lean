import ClangDatabase.Symbol.Clean
import ClangDatabase.Symbol.File

namespace ClangDatabase.Symbol

open Flatbuffers Filepath

theorem notExistMagic_eq : notExistMagic = 73 :: notExistMagic.tail ∧
    separator ∉ notExistMagic.tail := by
  decide

theorem headerIdentity_notExistHeaderName (q : Bytes) (hq : base q ≠ [separator])
    (time : BitVec 64) :
    headerIdentity ⟨notExistHeaderName q, time⟩ = notExistHeaderName q := by
  have hsep : separator ∉ notExistMagic.tail ++ base q := by
    simp only [List.mem_append, not_or]
    exact ⟨notExistMagic_eq.2, separator_not_mem_base q hq⟩
  unfold headerIdentity notExistHeaderName
  rw [notExistMagic_eq.1]
  simp only [List.cons_append, List.cons_ne_nil, if_false]
  exact clean_element 73 _ (by decide) (by decide) hsep

theorem header_identity (h₁ h₂ : ClangFile) (hnamed : h₁.name ≠ [] ∨ h₂.name ≠ []) :
    (headerIdentity h₁ = headerIdentity h₂ ↔
      (h₁.name ≠ [] ∧ h₂.name ≠ [] ∧ clean h₁.name = clean h₂.name) ∨
      (h₁.name = [] ∧ clean h₂.name = headerIdentity h₁) ∨
      (h₂.name = [] ∧ clean h₁.name = headerIdentity h₂)) ∧
    (h₁.name = [] → ∃ q, base q ≠ [separator] ∧ headerIdentity h₁ = notExistHeaderName q) ∧
    ∀ q, base q ≠ [separator] → ∀ time,
      notExistHeaderName q ≠ [] ∧
        headerIdentity ⟨notExistHeaderName q, time⟩ = notExistHeaderName q := by
  refine ⟨?_, fun h => ⟨clean h₁.name, by simp [h]; decide, by simp [headerIdentity, h]⟩,
    fun q hq time => ⟨by rw [notExistHeaderName, notExistMagic_eq.1]; exact List.cons_ne_nil _ _,
      headerIdentity_notExistHeaderName q hq time⟩⟩
  by_cases e₁ : h₁.name = [] <;> by_cases e₂ : h₂.name = [] <;>
    simp_all [headerIdentity, eq_comm]

theorem header_identity_named :
    ((⟨[97], 0⟩ : ClangFile).name ≠ [] ∨ (⟨[], 0⟩ : ClangFile).name ≠ []) ∧
    ((headerIdentity ⟨[97], 0⟩ = headerIdentity ⟨[], 0⟩ ↔
      ((⟨[97], 0⟩ : ClangFile).name ≠ [] ∧ (⟨[], 0⟩ : ClangFile).name ≠ [] ∧
          clean [97] = clean []) ∨
        ((⟨[97], 0⟩ : ClangFile).name = [] ∧ clean [] = headerIdentity ⟨[97], 0⟩) ∨
        ((⟨[], 0⟩ : ClangFile).name = [] ∧ clean [97] = headerIdentity ⟨[], 0⟩)) ∧
      ((⟨[97], 0⟩ : ClangFile).name = [] →
        ∃ q, base q ≠ [separator] ∧ headerIdentity ⟨[97], 0⟩ = notExistHeaderName q) ∧
      ∀ q, base q ≠ [separator] → ∀ time,
        notExistHeaderName q ≠ [] ∧
          headerIdentity ⟨notExistHeaderName q, time⟩ = notExistHeaderName q) :=
  ⟨.inl (List.cons_ne_nil _ _), header_identity ⟨[97], 0⟩ ⟨[], 0⟩ (.inl (List.cons_ne_nil _ _))⟩

theorem unnamed_header_collides :
    headerIdentity ⟨[], 0⟩ = headerIdentity ⟨ascii "IDoNotReallyExist-.", 0⟩ ∧
      ascii "IDoNotReallyExist-." ≠ [] := by
  decide

theorem headerIdentity_idempotent (h : ClangFile) (time : BitVec 64) :
    headerIdentity ⟨headerIdentity h, time⟩ = headerIdentity h := by
  by_cases hn : h.name = []
  · have hid : headerIdentity h = notExistHeaderName (clean h.name) := if_pos hn
    have hq : base (clean h.name) ≠ [separator] := by rw [hn]; decide
    rw [hid]
    exact headerIdentity_notExistHeaderName _ hq time
  · have hid : headerIdentity h = clean h.name := if_neg hn
    rw [hid, headerIdentity]
    simp only [clean_ne_nil, if_false]
    exact clean_clean h.name

theorem headerIdentity_eq_iff (h₁ h₂ : ClangFile) (hn₁ : h₁.name ≠ []) (hn₂ : h₂.name ≠ []) :
    headerIdentity h₁ = headerIdentity h₂ ↔
      isRooted h₁.name = isRooted h₂.name ∧ keptElements h₁.name = keptElements h₂.name := by
  rw [headerIdentity, headerIdentity, if_neg hn₁, if_neg hn₂]
  exact clean_eq_iff _ _

theorem headerIdentity_eq_iff_spellings :
    (⟨ascii "a/./b", 0⟩ : ClangFile).name ≠ [] ∧ (⟨ascii "a/c/../b", 1⟩ : ClangFile).name ≠ [] ∧
      (headerIdentity ⟨ascii "a/./b", 0⟩ = headerIdentity ⟨ascii "a/c/../b", 1⟩ ↔
        isRooted (ascii "a/./b") = isRooted (ascii "a/c/../b") ∧
          keptElements (ascii "a/./b") = keptElements (ascii "a/c/../b")) :=
  ⟨by decide, by decide,
    headerIdentity_eq_iff ⟨ascii "a/./b", 0⟩ ⟨ascii "a/c/../b", 1⟩ (by decide) (by decide)⟩

end ClangDatabase.Symbol
