import Mathlib.Data.List.AList

/-!
# Tables with unique keys

A hash map is an association list whose keys are distinct; no result below
depends on the order of its entries. `keep` is the loop that visits every
entry and erases or rewrites it.
-/

set_option autoImplicit false

namespace MiniRpc.KeyedTable

variable {α β : Type}

abbrev Table (α β : Type) := AList fun _ : α => β

def keepEntries (f : β → Option β) (es : List (Sigma fun _ : α => β)) :
    List (Sigma fun _ : α => β) :=
  es.filterMap fun e => (f e.2).map (Sigma.mk e.1)

theorem keepEntries_keys (f : β → Option β) (es : List (Sigma fun _ : α => β)) :
    ((keepEntries f es).map Sigma.fst).Sublist (es.map Sigma.fst) := by
  induction es with
  | nil => exact List.Sublist.refl _
  | cons e es ih =>
    cases h : f e.2 with
    | none => simpa [keepEntries,h] using ih.cons e.1
    | some b => simpa [keepEntries,h] using ih.cons_cons e.1

def keep (f : β → Option β) (m : Table α β) : Table α β :=
  ⟨keepEntries f m.entries,List.Nodup.sublist (keepEntries_keys f m.entries) m.nodupKeys⟩

variable [DecidableEq α]

theorem lookup_keep (f : β → Option β) (m : Table α β) (a : α) :
    (keep f m).lookup a = (m.lookup a).bind f := by
  apply Option.ext
  intro b
  have hk : ⟨a,b⟩ ∈ (keep f m).entries ↔ ∃ c, ⟨a,c⟩ ∈ m.entries ∧ f c = some b := by
    simp only [keep,keepEntries,List.mem_filterMap,Option.map_eq_some_iff]
    constructor
    · rintro ⟨⟨a',c⟩,he,b',hf,heq⟩
      cases heq
      exact ⟨c,he,hf⟩
    · rintro ⟨c,he,hf⟩
      exact ⟨⟨a,c⟩,he,b,hf,rfl⟩
  rw [← Option.mem_def,AList.mem_lookup_iff,hk]
  simp only [Option.bind_eq_some_iff,← AList.mem_lookup_iff,Option.mem_def]

theorem lookup_insert_cases (m : Table α β) (a a' : α) (b : β) :
    (m.insert a b).lookup a' = if a' = a then some b else m.lookup a' := by
  by_cases h : a' = a
  · rw [h,AList.lookup_insert,if_pos rfl]
  · rw [AList.lookup_insert_ne h,if_neg h]

theorem lookup_erase_cases (m : Table α β) (a a' : α) :
    (m.erase a).lookup a' = if a' = a then none else m.lookup a' := by
  by_cases h : a' = a
  · rw [h,AList.lookup_erase,if_pos rfl]
  · rw [AList.lookup_erase_ne h,if_neg h]

theorem lookup_of_isEmpty {m : Table α β} (h : m.entries.isEmpty = true) (a : α) :
    m.lookup a = none := by
  cases hl : m.lookup a with
  | none => rfl
  | some b =>
    have hm := AList.mem_lookup_iff.mp hl
    rw [List.isEmpty_iff.mp h] at hm
    simp at hm

def values {α β : Type} (m : Table α β) : List β := m.entries.map Sigma.snd

theorem mem_values (m : Table α β) (b : β) : b ∈ values m ↔ ∃ a, m.lookup a = some b := by
  simp only [values,List.mem_map,← Option.mem_def,AList.mem_lookup_iff]
  constructor
  · rintro ⟨⟨a,c⟩,he,rfl⟩
    exact ⟨a,he⟩
  · rintro ⟨a,he⟩
    exact ⟨⟨a,b⟩,he,rfl⟩

omit [DecidableEq α] in
theorem values_keep (f : β → Option β) (m : Table α β) : values (keep f m) = (values m).filterMap f := by
  simp only [values,keep,keepEntries,List.map_filterMap,List.filterMap_map,Option.map_map]
  apply List.filterMap_congr
  intro e _
  exact Option.map_id'

/-- Values that can be told apart by their keys are listed without
repetition. -/
theorem values_pairwise (m : Table α β) (key : β → α)
    (hk : ∀ a b, m.lookup a = some b → key b = a) :
    (values m).Pairwise fun b c => key b ≠ key c := by
  have hn : (m.entries.map Sigma.fst).Nodup := m.nodupKeys
  have hkeys : (values m).map key = m.entries.map Sigma.fst := by
    rw [values,List.map_map]
    apply List.map_congr_left
    intro e he
    exact hk e.1 e.2 (AList.mem_lookup_iff.mpr he)
  rw [← hkeys] at hn
  exact List.pairwise_map.mp hn

end MiniRpc.KeyedTable
