import Mathlib.Data.List.Perm.Basic

/-!
# A queue of items posted by several threads

Each thread posts one item at a time: it begins a post, and later the item
enters the queue. A single consumer swaps the whole queue out and takes the
items of this batch one by one, while new items gather for the next. From
its beginning until it is taken an item waits in one place, and the items of
each thread are taken in the order in which it posted them.
-/

set_option autoImplicit false

namespace MiniRpc.PostedItems

variable {τ α : Type*}

/-- `posting`: the posts that have begun. `batch`: what the consumer swapped
out and has not taken yet; `none` while it is elsewhere. -/
structure PostQueue (τ α : Type*) where
  posting : List (τ × α) := []
  pending : List (τ × α) := []
  batch : Option (List (τ × α)) := none

def PostQueue.waiting (q : PostQueue τ α) : List (τ × α) :=
  q.batch.getD []++(q.pending++q.posting)

def PostQueue.start (q : PostQueue τ α) (t : τ) (a : α) : PostQueue τ α :=
  { q with posting := q.posting++[(t,a)] }

def PostQueue.swap (q : PostQueue τ α) : PostQueue τ α :=
  { q with batch := some q.pending, pending := [] }

theorem start_waiting (q : PostQueue τ α) (t : τ) (a : α) :
    (q.start t a).waiting = q.waiting++[(t,a)] := by
  simp [PostQueue.waiting,PostQueue.start]

theorem swap_waiting (q : PostQueue τ α) (h : q.batch = none) :
    q.swap.waiting = q.waiting := by
  simp [PostQueue.waiting,PostQueue.swap,h]

theorem take_waiting (q : PostQueue τ α) (x : τ × α) (xs : List (τ × α))
    (h : q.batch = some (x::xs)) :
    q.waiting = x::{ q with batch := some xs }.waiting := by
  simp [PostQueue.waiting,h]

theorem done_waiting (q : PostQueue τ α) (h : q.batch = some []) :
    { q with batch := none }.waiting = q.waiting := by
  simp [PostQueue.waiting,h]

def itemsOf [DecidableEq τ] (t : τ) (xs : List (τ × α)) : List α :=
  xs.filterMap fun x => if x.1 = t then some x.2 else none

variable [DecidableEq τ]

def PostQueue.busy (q : PostQueue τ α) (t : τ) : Bool := q.posting.any fun x => x.1 = t

def PostQueue.post (q : PostQueue τ α) (t : τ) : PostQueue τ α :=
  { q with
    pending := q.pending++q.posting.filter fun x => x.1 = t
    posting := q.posting.filter fun x => x.1 ≠ t }

@[simp] theorem itemsOf_append (t : τ) (xs ys : List (τ × α)) :
    itemsOf t (xs++ys) = itemsOf t xs++itemsOf t ys := List.filterMap_append

theorem itemsOf_filter_self (t : τ) (xs : List (τ × α)) :
    itemsOf t (xs.filter fun x => x.1 = t) = itemsOf t xs ∧
    itemsOf t (xs.filter fun x => x.1 ≠ t) = [] := by
  induction xs with
  | nil => exact ⟨rfl,rfl⟩
  | cons x xs ih =>
    by_cases h : x.1 = t
    · simpa [itemsOf,h] using ih
    · simpa [itemsOf,h] using ih

theorem itemsOf_filter_other {t u : τ} (h : u ≠ t) (xs : List (τ × α)) :
    itemsOf u (xs.filter fun x => x.1 = t) = [] ∧
    itemsOf u (xs.filter fun x => x.1 ≠ t) = itemsOf u xs := by
  induction xs with
  | nil => exact ⟨rfl,rfl⟩
  | cons x xs ih =>
    by_cases hx : x.1 = t
    · simpa [itemsOf,hx,Ne.symm h] using ih
    · by_cases hu : x.1 = u
      · simpa [itemsOf,hu,h] using ih
      · simpa [itemsOf,hx,hu] using ih

/-- Posting an item changes the order of no thread's items. -/
theorem post_waiting (q : PostQueue τ α) (t u : τ) :
    itemsOf u (q.post t).waiting = itemsOf u q.waiting := by
  rw [PostQueue.waiting,PostQueue.waiting,PostQueue.post]
  by_cases h : u = t
  · obtain ⟨h1,h2⟩ := itemsOf_filter_self t q.posting
    subst h
    simp only [itemsOf_append,h1,h2,List.append_nil]
  · obtain ⟨h1,h2⟩ := itemsOf_filter_other h q.posting
    simp only [itemsOf_append,h1,h2,List.append_nil]

theorem post_waiting_perm (q : PostQueue τ α) (t : τ) : (q.post t).waiting.Perm q.waiting := by
  have h := List.filter_append_perm (fun x : τ × α => decide (x.1 = t)) q.posting
  simp only [PostQueue.waiting,PostQueue.post,List.append_assoc,ne_eq,decide_not]
  exact ((h.append_left q.pending).append_left _)

end MiniRpc.PostedItems
