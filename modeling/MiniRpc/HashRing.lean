import Mathlib.Order.Lattice
import Mathlib.Data.List.Basic
import Mathlib.Data.List.Induction

/-!
# Rings of hashed places

An ordered map from places to owners, kept as a list in the order of the
places. Every node puts its places on the ring one after another, and a
later node takes over a place that is taken. The owner of any place is that
of the next taken place at or after it, or of the first one on the ring.
-/

set_option autoImplicit false

namespace MiniRpc.HashRing

variable {π κ : Type*} [LinearOrder π]

def put (p : π) (k : κ) : List (π × κ) → List (π × κ)
  | [] => [(p,k)]
  | x::ring =>
    if p < x.1 then (p,k)::x::ring
    else if p = x.1 then (p,k)::ring
    else x::put p k ring

def owner (ring : List (π × κ)) (p : π) : Option κ :=
  ((ring.find? fun x => p ≤ x.1).or ring.head?).map Prod.snd

def putAll (place : κ → ℕ → π) (v : ℕ) (ring : List (π × κ)) (k : κ) : List (π × κ) :=
  (List.range v).foldl (fun ring i => put (place k i) k ring) ring

def build (place : κ → ℕ → π) (v : ℕ) (nodes : List κ) : List (π × κ) :=
  nodes.foldl (putAll place v) []

theorem mem_put {p : π} {k : κ} {ring : List (π × κ)} {x : π × κ} (h : x ∈ put p k ring) :
    x = (p,k) ∨ x ∈ ring := by
  induction ring with
  | nil => exact .inl (List.mem_singleton.mp h)
  | cons y ring ih =>
    rw [put] at h
    by_cases hlt : p < y.1
    · rw [if_pos hlt] at h
      exact List.mem_cons.mp h
    · rw [if_neg hlt] at h
      by_cases heq : p = y.1
      · rw [if_pos heq] at h
        exact (List.mem_cons.mp h).imp_right (List.mem_cons_of_mem y)
      · rw [if_neg heq] at h
        rcases List.mem_cons.mp h with rfl | h
        · exact .inr List.mem_cons_self
        · exact (ih h).imp_right (List.mem_cons_of_mem y)

theorem put_ne_nil (p : π) (k : κ) (ring : List (π × κ)) : put p k ring ≠ [] := by
  cases ring with
  | nil => exact List.cons_ne_nil _ _
  | cons x ring =>
    rw [put]
    split_ifs <;> exact List.cons_ne_nil _ _

theorem mem_putAll {place : κ → ℕ → π} {v : ℕ} {ring : List (π × κ)} {k : κ} {x : π × κ}
    (h : x ∈ putAll place v ring k) : x.2 = k ∨ x ∈ ring := by
  revert h
  apply List.foldlRecOn (motive := fun r : List (π × κ) => x ∈ r → x.2 = k ∨ x ∈ ring)
  · exact .inr
  · intro r ih i _ hx
    rcases mem_put hx with rfl | hx
    · exact .inl rfl
    · exact ih hx

theorem putAll_ne_nil {place : κ → ℕ → π} {v : ℕ} {ring : List (π × κ)} (k : κ)
    (h : ring ≠ [] ∨ 0 < v) : putAll place v ring k ≠ [] := by
  cases v with
  | zero => exact h.resolve_right (Nat.lt_irrefl 0)
  | succ n =>
    rw [putAll,List.range_succ,List.foldl_append]
    exact put_ne_nil _ _ _

theorem mem_build {place : κ → ℕ → π} {v : ℕ} {nodes : List κ} {x : π × κ}
    (h : x ∈ build place v nodes) : x.2 ∈ nodes := by
  revert h
  apply List.foldlRecOn (motive := fun ring : List (π × κ) => x ∈ ring → x.2 ∈ nodes)
  · exact fun hx => absurd hx List.not_mem_nil
  · intro ring ih k hk hx
    rcases mem_putAll hx with rfl | hx
    · exact hk
    · exact ih hx

theorem build_ne_nil {place : κ → ℕ → π} {v : ℕ} {nodes : List κ} (hv : 0 < v) (h : nodes ≠ []) :
    build place v nodes ≠ [] := by
  rw [build,← List.dropLast_append_getLast h,List.foldl_append]
  exact putAll_ne_nil _ (.inr hv)

theorem owner_mem {ring : List (π × κ)} (h : ring ≠ []) (p : π) :
    ∃ x ∈ ring, owner ring p = some x.2 := by
  rw [owner]
  cases hf : ring.find? fun x => p ≤ x.1 with
  | some x => exact ⟨x,List.mem_of_find?_eq_some hf,rfl⟩
  | none =>
    cases ring with
    | nil => exact absurd rfl h
    | cons x ring => exact ⟨x,List.mem_cons_self,rfl⟩

def Sorted (ring : List (π × κ)) : Prop := ring.Pairwise fun x y => x.1 < y.1

theorem mem_put_iff {p : π} {k : κ} {ring : List (π × κ)} (h : Sorted ring) {x : π × κ} :
    x ∈ put p k ring ↔ x = (p,k) ∨ (x ∈ ring ∧ x.1 ≠ p) := by
  induction ring with
  | nil => simp [put]
  | cons y ring ih =>
    obtain ⟨hy,hring⟩ := List.pairwise_cons.mp h
    have hahead : p ≤ y.1 → ∀ z ∈ ring, z.1 ≠ p := fun hp z hz => (lt_of_le_of_lt hp (hy z hz)).ne'
    rw [put]
    by_cases hlt : p < y.1
    · rw [if_pos hlt,List.mem_cons]
      refine or_congr_right ⟨fun hx => ⟨hx,?_⟩,And.left⟩
      rcases List.mem_cons.mp hx with rfl | hx
      · exact hlt.ne'
      · exact hahead hlt.le x hx
    · rw [if_neg hlt]
      by_cases heq : p = y.1
      · rw [if_pos heq,List.mem_cons]
        refine or_congr_right ⟨fun hx => ⟨List.mem_cons_of_mem y hx,hahead heq.le x hx⟩,fun hx => ?_⟩
        rcases List.mem_cons.mp hx.1 with rfl | hmem
        · exact absurd heq.symm hx.2
        · exact hmem
      · rw [if_neg heq,List.mem_cons,List.mem_cons,ih hring]
        constructor
        · rintro (rfl | rfl | hx)
          · exact .inr ⟨.inl rfl,Ne.symm heq⟩
          · exact .inl rfl
          · exact .inr ⟨.inr hx.1,hx.2⟩
        · rintro (rfl | ⟨rfl | hx,hne⟩)
          · exact .inr (.inl rfl)
          · exact .inl rfl
          · exact .inr (.inr ⟨hx,hne⟩)

theorem put_sorted {p : π} {k : κ} {ring : List (π × κ)} (h : Sorted ring) :
    Sorted (put p k ring) := by
  induction ring with
  | nil => exact List.pairwise_singleton _ _
  | cons y ring ih =>
    obtain ⟨hy,hring⟩ := List.pairwise_cons.mp h
    rw [put]
    by_cases hlt : p < y.1
    · rw [if_pos hlt]
      refine List.pairwise_cons.mpr ⟨fun z hz => ?_,h⟩
      rcases List.mem_cons.mp hz with rfl | hz
      · exact hlt
      · exact hlt.trans (hy z hz)
    · rw [if_neg hlt]
      by_cases heq : p = y.1
      · rw [if_pos heq]
        exact List.pairwise_cons.mpr ⟨fun z hz => lt_of_eq_of_lt heq (hy z hz),hring⟩
      · rw [if_neg heq]
        refine List.pairwise_cons.mpr ⟨fun z hz => ?_,ih hring⟩
        rcases mem_put hz with rfl | hz
        · exact lt_of_le_of_ne (not_lt.mp hlt) (Ne.symm heq)
        · exact hy z hz

theorem putAll_succ (place : κ → ℕ → π) (v : ℕ) (ring : List (π × κ)) (k : κ) :
    putAll place (v+1) ring k = put (place k v) k (putAll place v ring k) := by
  rw [putAll,List.range_succ,List.foldl_append]
  rfl

theorem putAll_sorted (place : κ → ℕ → π) (v : ℕ) {ring : List (π × κ)} (h : Sorted ring) (k : κ) :
    Sorted (putAll place v ring k) := by
  induction v with
  | zero => exact h
  | succ v ih =>
    rw [putAll_succ]
    exact put_sorted ih

theorem mem_putAll_iff {place : κ → ℕ → π} {v : ℕ} {ring : List (π × κ)} (h : Sorted ring) {c k : κ}
    {p : π} :
    (p,k) ∈ putAll place v ring c ↔
      (k = c ∧ ∃ i < v, place c i = p) ∨ ((p,k) ∈ ring ∧ ∀ i < v, place c i ≠ p) := by
  induction v with
  | zero => simp [putAll]
  | succ v ih =>
    rw [putAll_succ,mem_put_iff (putAll_sorted place v h c),ih,Prod.mk.injEq]
    constructor
    · rintro (⟨rfl,rfl⟩ | ⟨⟨rfl,i,hi,hp⟩ | ⟨hmem,hfree⟩,hlast⟩)
      · exact .inl ⟨rfl,v,Nat.lt_succ_self v,rfl⟩
      · exact .inl ⟨rfl,i,Nat.lt_succ_of_lt hi,hp⟩
      · refine .inr ⟨hmem,fun i hi => ?_⟩
        rcases Nat.lt_succ_iff_lt_or_eq.mp hi with hi | rfl
        · exact hfree i hi
        · exact Ne.symm hlast
    · rintro (⟨rfl,i,hi,hp⟩ | ⟨hmem,hfree⟩)
      · by_cases hlast : p = place k v
        · exact .inl ⟨hlast,rfl⟩
        · refine .inr ⟨.inl ⟨rfl,i,?_,hp⟩,hlast⟩
          rcases Nat.lt_succ_iff_lt_or_eq.mp hi with hi | rfl
          · exact hi
          · exact absurd hp.symm hlast
      · exact .inr ⟨.inr ⟨hmem,fun i hi => hfree i (Nat.lt_succ_of_lt hi)⟩,
          Ne.symm (hfree v (Nat.lt_succ_self v))⟩

/-- `k` is the last of the nodes that has the place `p`. -/
def Holds (place : κ → ℕ → π) (v : ℕ) (nodes : List κ) (p : π) (k : κ) : Prop :=
  ∃ before after, nodes = before++k::after ∧ (∃ i < v, place k i = p) ∧
    ∀ k' ∈ after, ∀ i < v, place k' i ≠ p

omit [LinearOrder π] in
theorem holds_concat {place : κ → ℕ → π} {v : ℕ} {nodes : List κ} {c k : κ} {p : π} :
    Holds place v (nodes++[c]) p k ↔
      (k = c ∧ ∃ i < v, place c i = p) ∨ (Holds place v nodes p k ∧ ∀ i < v, place c i ≠ p) := by
  constructor
  · rintro ⟨before,after,hsplit,hplace,hlater⟩
    rcases List.eq_nil_or_concat after with rfl | ⟨rest,c',rfl⟩
    · obtain ⟨-,hc⟩ := List.append_inj' hsplit rfl
      obtain rfl := List.singleton_inj.mp hc
      exact .inl ⟨rfl,hplace⟩
    · rw [List.concat_eq_append] at hsplit hlater
      rw [← List.cons_append,← List.append_assoc] at hsplit
      obtain ⟨hnodes,hc⟩ := List.append_inj' hsplit rfl
      obtain rfl := List.singleton_inj.mp hc
      exact .inr ⟨⟨before,rest,hnodes,hplace,fun k' hk' => hlater k' (List.mem_append_left _ hk')⟩,
        hlater c (List.mem_append_right _ (List.mem_singleton_self c))⟩
  · rintro (⟨rfl,hplace⟩ | ⟨⟨before,after,rfl,hplace,hlater⟩,hlast⟩)
    · exact ⟨nodes,[],rfl,hplace,by simp⟩
    · refine ⟨before,after++[c],by rw [List.append_assoc,List.cons_append],hplace,fun k' hk' => ?_⟩
      rcases List.mem_append.mp hk' with hk' | hk'
      · exact hlater k' hk'
      · rw [List.mem_singleton.mp hk']
        exact hlast

/-- The ring of the nodes has their places in order, each held by the last
node that has it. -/
structure IsRing (place : κ → ℕ → π) (v : ℕ) (nodes : List κ) (ring : List (π × κ)) : Prop where
  sorted : Sorted ring
  places : ∀ p k, (p,k) ∈ ring ↔ Holds place v nodes p k

theorem build_isRing (place : κ → ℕ → π) (v : ℕ) (nodes : List κ) :
    IsRing place v nodes (build place v nodes) := by
  induction nodes using List.reverseRecOn with
  | nil => exact ⟨List.Pairwise.nil,fun p k => by simp [build,Holds]⟩
  | append_singleton nodes c ih =>
    have hbuild : build place v (nodes++[c]) = putAll place v (build place v nodes) c := by
      rw [build,List.foldl_append]
      rfl
    rw [hbuild]
    refine ⟨putAll_sorted place v ih.sorted c,fun p k => ?_⟩
    rw [mem_putAll_iff ih.sorted,holds_concat,ih.places]

theorem place_unique {ring : List (π × κ)} (h : Sorted ring) {x y : π × κ} (hx : x ∈ ring)
    (hy : y ∈ ring) (he : x.1 = y.1) : x = y := by
  induction ring with
  | nil => exact absurd hx List.not_mem_nil
  | cons z ring ih =>
    obtain ⟨hz,hring⟩ := List.pairwise_cons.mp h
    rcases List.mem_cons.mp hx with rfl | hx'
    · rcases List.mem_cons.mp hy with rfl | hy'
      · rfl
      · exact absurd he (hz y hy').ne
    · rcases List.mem_cons.mp hy with rfl | hy'
      · exact absurd he.symm (hz x hx').ne
      · exact ih hring hx' hy'

/-- `q` is the place on the ring whose owner owns `p`. -/
def Next (ring : List (π × κ)) (p q : π) : Prop :=
  (p ≤ q ∧ ∀ y ∈ ring, p ≤ y.1 → q ≤ y.1) ∨ ∀ y ∈ ring, y.1 < p ∧ q ≤ y.1

theorem next_unique {ring : List (π × κ)} {p : π} {x y : π × κ} (hx : x ∈ ring) (hy : y ∈ ring)
    (h : Next ring p x.1) (h' : Next ring p y.1) : x.1 = y.1 := by
  rcases h with ⟨hp,hleast⟩ | hwrap
  · rcases h' with ⟨hp',hleast'⟩ | hwrap'
    · exact le_antisymm (hleast y hy hp') (hleast' x hx hp)
    · exact absurd hp (not_le.mpr (hwrap' x hx).1)
  · rcases h' with ⟨hp',hleast'⟩ | hwrap'
    · exact absurd hp' (not_le.mpr (hwrap y hy).1)
    · exact le_antisymm (hwrap y hy).2 (hwrap' x hx).2

theorem next_mono {ring ring' : List (π × κ)} (h : ∀ y ∈ ring', ∃ k, (y.1,k) ∈ ring) {p q : π}
    (hq : Next ring p q) : Next ring' p q := by
  rcases hq with ⟨hp,hleast⟩ | hwrap
  · refine .inl ⟨hp,fun y hy => ?_⟩
    obtain ⟨k,hk⟩ := h y hy
    exact hleast (y.1,k) hk
  · refine .inr fun y hy => ?_
    obtain ⟨k,hk⟩ := h y hy
    exact hwrap (y.1,k) hk

theorem owner_next {ring : List (π × κ)} (h : Sorted ring) (hne : ring ≠ []) (p : π) :
    ∃ x ∈ ring, owner ring p = some x.2 ∧ Next ring p x.1 := by
  rw [owner]
  cases hf : ring.find? fun x => p ≤ x.1 with
  | some x =>
    obtain ⟨hx,before,after,rfl,hbefore⟩ := List.find?_eq_some_iff_append.mp hf
    have hp : p ≤ x.1 := of_decide_eq_true hx
    refine ⟨x,by simp,rfl,.inl ⟨hp,fun y hy hpy => ?_⟩⟩
    rcases List.mem_append.mp hy with hy | hy
    · exact absurd hpy (by simpa using hbefore y hy)
    · rcases List.mem_cons.mp hy with rfl | hy
      · exact le_refl _
      · exact ((List.pairwise_cons.mp (List.pairwise_append.mp h).2.1).1 y hy).le
  | none =>
    have hall : ∀ y ∈ ring, y.1 < p := fun y hy => by simpa using List.find?_eq_none.mp hf y hy
    cases ring with
    | nil => exact absurd rfl hne
    | cons x ring =>
      refine ⟨x,List.mem_cons_self,rfl,.inr fun y hy => ⟨hall y hy,?_⟩⟩
      rcases List.mem_cons.mp hy with rfl | hy
      · exact le_refl _
      · exact ((List.pairwise_cons.mp h).1 y hy).le

/-- `ring'` is what is left of `ring` without the node `c`: the other nodes
keep their places, and the places that `c` had taken from them come back. -/
structure Without (c : κ) (ring ring' : List (π × κ)) : Prop where
  sorted : Sorted ring
  sorted' : Sorted ring'
  keeps : ∀ x ∈ ring, x.2 ≠ c → x ∈ ring'
  places : ∀ y ∈ ring', ∃ k, (y.1,k) ∈ ring

theorem put_without {c : κ} {ring ring' : List (π × κ)} (h : Without c ring ring') (p : π) (k : κ) :
    Without c (put p k ring) (put p k ring') := by
  refine ⟨put_sorted h.sorted,put_sorted h.sorted',fun x hx hc => ?_,fun y hy => ?_⟩
  · rw [mem_put_iff h.sorted']
    exact ((mem_put_iff h.sorted).mp hx).imp_right fun hx => ⟨h.keeps x hx.1 hc,hx.2⟩
  · rcases (mem_put_iff h.sorted').mp hy with rfl | ⟨hy,hne⟩
    · exact ⟨k,(mem_put_iff h.sorted).mpr (.inl rfl)⟩
    · obtain ⟨k',hk'⟩ := h.places y hy
      exact ⟨k',(mem_put_iff h.sorted).mpr (.inr ⟨hk',hne⟩)⟩

theorem put_removed {c : κ} {ring ring' : List (π × κ)} (h : Without c ring ring') (p : π) :
    Without c (put p c ring) ring' := by
  refine ⟨put_sorted h.sorted,h.sorted',fun x hx hc => ?_,fun y hy => ?_⟩
  · rcases (mem_put_iff h.sorted).mp hx with rfl | hx
    · exact absurd rfl hc
    · exact h.keeps x hx.1 hc
  · obtain ⟨k,hk⟩ := h.places y hy
    by_cases hp : y.1 = p
    · exact ⟨c,(mem_put_iff h.sorted).mpr (.inl (congrArg (·,c) hp))⟩
    · exact ⟨k,(mem_put_iff h.sorted).mpr (.inr ⟨hk,hp⟩)⟩

section
variable [DecidableEq κ] (place : κ → ℕ → π) (v : ℕ)

theorem putAll_without {c : κ} {ring ring' : List (π × κ)} (h : Without c ring ring') (k : κ) :
    Without c (putAll place v ring k) (if k = c then ring' else putAll place v ring' k) := by
  rw [putAll,putAll]
  by_cases hk : k = c
  · rw [if_pos hk,hk]
    apply List.foldlRecOn (motive := fun r : List (π × κ) => Without c r ring')
    · exact h
    · exact fun r hr i _ => put_removed hr (place c i)
  · rw [if_neg hk]
    induction List.range v generalizing ring ring' with
    | nil => exact h
    | cons i is ih => exact ih (put_without h (place k i) k)

theorem build_without (c : κ) (nodes : List κ) :
    Without c (build place v nodes) (build place v (nodes.filter (· ≠ c))) := by
  suffices hfold : ∀ {ring ring' : List (π × κ)}, Without c ring ring' →
      Without c (nodes.foldl (putAll place v) ring) ((nodes.filter (· ≠ c)).foldl (putAll place v) ring')
    from hfold ⟨List.Pairwise.nil,List.Pairwise.nil,by simp,by simp⟩
  induction nodes with
  | nil => exact id
  | cons k nodes ih =>
    intro ring ring' h
    have hput := putAll_without place v h k
    by_cases hk : k = c
    · rw [if_pos hk] at hput
      rw [List.filter_cons_of_neg (by simpa using hk)]
      exact ih hput
    · rw [if_neg hk] at hput
      rw [List.filter_cons_of_pos (by simpa using hk)]
      exact ih hput

/-- Removing a node leaves every place to its owner, unless it was the
removed one's. -/
theorem owner_without {c k : κ} {nodes : List κ} {p : π}
    (h : owner (build place v nodes) p = some k) (hk : k ≠ c) :
    owner (build place v (nodes.filter (· ≠ c))) p = some k := by
  have hw := build_without place v c nodes
  have hne : build place v nodes ≠ [] := by
    intro hnil
    rw [hnil] at h
    cases h
  obtain ⟨x,hx,howner,hnext⟩ := owner_next hw.sorted hne p
  have hxk : x.2 = k := Option.some.inj (howner.symm.trans h)
  have hx' := hw.keeps x hx (by rwa [hxk])
  obtain ⟨y,hy,howner',hnext'⟩ := owner_next hw.sorted' (List.ne_nil_of_mem hx') p
  have hxy := place_unique hw.sorted' hy hx' (next_unique hy hx' hnext' (next_mono hw.places hnext))
  rw [howner',hxy,hxk]

end

end MiniRpc.HashRing
