import Mathlib.Data.List.Basic

/-!
# Incremental parsers over a byte stream

A parser inspects the symbols received so far and waits, rejects, or takes
one item off the front. Its three laws say that an item takes at least one
symbol off the front and that neither an item nor a rejection is revised
when more symbols arrive. Everything below follows from these laws: greedy
draining does not depend on how the stream was cut, and a stream made of
encoded items is read back as those items.
-/

set_option autoImplicit false

namespace MiniRpc.Incremental

variable {α μ ε : Type*}

inductive Outcome (α μ ε : Type*) where
  | wait
  | reject (e : ε)
  | item (m : μ) (rest : List α)

structure Parser (α μ ε : Type*) where
  next : List α → Outcome α μ ε
  takes : ∀ {xs m rest}, next xs = .item m rest → ∃ used, used ≠ [] ∧ xs = used++rest
  item_extends : ∀ {xs m rest} (ys : List α), next xs = .item m rest →
    next (xs++ys) = .item m (rest++ys)
  reject_extends : ∀ {xs e} (ys : List α), next xs = .reject e → next (xs++ys) = .reject e

theorem Parser.shrinks (P : Parser α μ ε) {xs rest : List α} {m : μ}
    (h : P.next xs = .item m rest) : rest.length < xs.length := by
  obtain ⟨used,hu,rfl⟩ := P.takes h
  rw [List.length_append]
  have := List.length_pos_iff.mpr hu
  omega

structure Drained (α μ ε : Type*) where
  items : List μ
  verdict : Option ε
  rest : List α

def Drained.prepend (m : μ) (d : Drained α μ ε) : Drained α μ ε :=
  { d with items := m::d.items }

def drain (P : Parser α μ ε) (xs : List α) : Drained α μ ε :=
  match h : P.next xs with
  | .wait => ⟨[],none,xs⟩
  | .reject e => ⟨[],some e,xs⟩
  | .item m rest =>
    have := P.shrinks h
    (drain P rest).prepend m
termination_by xs.length

variable (P : Parser α μ ε)

theorem drain_wait {xs : List α} (h : P.next xs = .wait) : drain P xs = ⟨[],none,xs⟩ := by
  rw [drain]
  split <;> simp_all

theorem drain_reject {xs : List α} {e : ε} (h : P.next xs = .reject e) :
    drain P xs = ⟨[],some e,xs⟩ := by
  rw [drain]
  split <;> simp_all

theorem drain_item {xs rest : List α} {m : μ} (h : P.next xs = .item m rest) :
    drain P xs = (drain P rest).prepend m := by
  rw [drain]
  split <;> simp_all

theorem drain_append (xs ys : List α) :
    drain P (xs++ys) =
      { drain P ((drain P xs).rest++ys) with
        items := (drain P xs).items++(drain P ((drain P xs).rest++ys)).items } := by
  induction hn : xs.length using Nat.strongRecOn generalizing xs with
  | ind n ih =>
    subst hn
    cases h : P.next xs with
    | wait => simp [drain_wait P h]
    | reject e => simp [drain_reject P h]
    | item m rest =>
      rw [drain_item P (P.item_extends ys h),drain_item P h,ih _ (P.shrinks h) rest rfl]
      simp [Drained.prepend]

theorem drain_rest (xs : List α) :
    drain P (drain P xs).rest = ⟨[],(drain P xs).verdict,(drain P xs).rest⟩ := by
  induction hn : xs.length using Nat.strongRecOn generalizing xs with
  | ind n ih =>
    subst hn
    cases h : P.next xs with
    | wait => simp [drain_wait P h]
    | reject e => simp [drain_reject P h]
    | item m rest =>
      rw [drain_item P h]
      exact ih _ (P.shrinks h) rest rfl

/-- `taken` and then what `held` drains to is what `all` drains to. -/
def Resumes (all : List α) (taken : List μ) (held : List α) : Prop :=
  drain P all = { drain P held with items := taken++(drain P held).items }

theorem resumes_nil : Resumes P [] [] [] := rfl

theorem resumes_drain (xs : List α) : Resumes P xs (drain P xs).items (drain P xs).rest := by
  rw [Resumes,drain_rest,List.append_nil]

theorem resumes_append {all : List α} {taken : List μ} {held : List α}
    (h : Resumes P all taken held) (more : List α) : Resumes P (all++more) taken (held++more) := by
  unfold Resumes at h ⊢
  rw [drain_append P all,drain_append P held,h]
  simp

theorem resumes_item {all : List α} {taken : List μ} {held rest : List α} {m : μ}
    (h : Resumes P all taken held) (hm : P.next held = .item m rest) :
    Resumes P all (taken++[m]) rest := by
  unfold Resumes at h ⊢
  rw [h,drain_item P hm]
  simp [Drained.prepend]

theorem next_rest_rejected (xs : List α) {e : ε} (h : (drain P xs).verdict = some e) :
    P.next (drain P xs).rest = .reject e := by
  induction hn : xs.length using Nat.strongRecOn generalizing xs with
  | ind n ih =>
    subst hn
    cases hx : P.next xs with
    | wait => simp [drain_wait P hx] at h
    | reject e' =>
      rw [drain_reject P hx] at h ⊢
      obtain rfl := Option.some.inj h
      exact hx
    | item m rest =>
      rw [drain_item P hx] at h ⊢
      exact ih _ (P.shrinks hx) rest h rfl

/-- Receive chunks one at a time and drain after each of them. The verdict
is that of the last draining. -/
def feed : List α → List (List α) → Drained α μ ε
  | held, [] => ⟨[],(drain P held).verdict,held⟩
  | held, c::cs =>
    let d := drain P (held++c)
    { feed d.rest cs with items := d.items++(feed d.rest cs).items }

/-- Once the held symbols are drained, feeding chunks is draining their
concatenation, however it was cut. -/
theorem feed_flatten (held : List α) (cs : List (List α))
    (hh : drain P held = ⟨[],(drain P held).verdict,held⟩) :
    feed P held cs = drain P (held++cs.flatten) := by
  induction cs generalizing held with
  | nil => simp only [feed,List.flatten_nil,List.append_nil]; exact hh.symm
  | cons c cs ih =>
    have hr : drain P (drain P (held++c)).rest =
        ⟨[],(drain P (drain P (held++c)).rest).verdict,(drain P (held++c)).rest⟩ := by
      rw [drain_rest]
    rw [feed,ih _ hr,List.flatten_cons,← List.append_assoc,drain_append P (held++c)]

theorem drain_rejected (xs ys : List α) {e : ε} (h : (drain P xs).verdict = some e) :
    (drain P (xs++ys)).verdict = some e := by
  induction hn : xs.length using Nat.strongRecOn generalizing xs with
  | ind n ih =>
    subst hn
    cases hx : P.next xs with
    | wait => simp [drain_wait P hx] at h
    | reject e' =>
      rw [drain_reject P hx] at h
      rw [drain_reject P (P.reject_extends ys hx)]
      exact h
    | item m rest =>
      rw [drain_item P hx] at h
      rw [drain_item P (P.item_extends ys hx)]
      exact ih _ (P.shrinks hx) rest h rfl

def rejections : List α → List (List α) → List ε
  | _, [] => []
  | held, c::cs =>
    let d := drain P (held++c)
    d.verdict.toList++rejections d.rest cs

theorem rejections_head (held : List α) (cs : List (List α))
    (hh : drain P held = ⟨[],none,held⟩) :
    (rejections P held cs).head? = (drain P (held++cs.flatten)).verdict := by
  induction cs generalizing held with
  | nil => rw [List.flatten_nil,List.append_nil,hh]; rfl
  | cons c cs ih =>
    rw [rejections,List.flatten_cons,← List.append_assoc]
    cases hv : (drain P (held++c)).verdict with
    | some e => rw [drain_rejected P (held++c) cs.flatten hv]; rfl
    | none =>
      have hr : drain P (drain P (held++c)).rest = ⟨[],none,(drain P (held++c)).rest⟩ := by
        rw [drain_rest,hv]
      rw [drain_append P (held++c)]
      exact ih _ hr

/-- After a rejection every further chunk meets it again, and nothing is
taken any more. -/
theorem feed_rejected {held : List α} {e : ε} (hh : P.next held = .reject e)
    (cs : List (List α)) :
    (feed P held cs).items = [] ∧ rejections P held cs = List.replicate cs.length e := by
  induction cs generalizing held with
  | nil => exact ⟨rfl,rfl⟩
  | cons c cs ih =>
    have hc := P.reject_extends c hh
    obtain ⟨hitems,hrejections⟩ := ih hc
    rw [feed,rejections,drain_reject P hc]
    exact ⟨hitems,congrArg (e :: ·) hrejections⟩

inductive SearchEnd (μ ε : Type*) where
  | waits
  | rejects (e : ε)
  | found (m : μ)

structure Searched (α μ ε : Type*) where
  items : List μ
  ending : SearchEnd μ ε
  rest : List α

def search (hit : μ → Bool) (xs : List α) : Searched α μ ε :=
  match h : P.next xs with
  | .wait => ⟨[],.waits,xs⟩
  | .reject e => ⟨[],.rejects e,xs⟩
  | .item m rest =>
    have := P.shrinks h
    if hit m then ⟨[m],.found m,rest⟩
    else { search hit rest with items := m::(search hit rest).items }
termination_by xs.length

theorem search_wait {hit : μ → Bool} {xs : List α} (h : P.next xs = .wait) :
    search P hit xs = ⟨[],.waits,xs⟩ := by
  rw [search]
  split <;> simp_all

theorem search_reject {hit : μ → Bool} {xs : List α} {e : ε} (h : P.next xs = .reject e) :
    search P hit xs = ⟨[],.rejects e,xs⟩ := by
  rw [search]
  split <;> simp_all

theorem search_hit {hit : μ → Bool} {xs rest : List α} {m : μ}
    (h : P.next xs = .item m rest) (hm : hit m = true) :
    search P hit xs = ⟨[m],.found m,rest⟩ := by
  rw [search]
  split <;> simp_all

theorem search_miss {hit : μ → Bool} {xs rest : List α} {m : μ}
    (h : P.next xs = .item m rest) (hm : hit m = false) :
    search P hit xs = { search P hit rest with items := m::(search P hit rest).items } := by
  rw [search]
  split <;> simp_all

theorem search_takes (hit : μ → Bool) (xs : List α) :
    ∃ used, xs = used++(search P hit xs).rest := by
  induction hn : xs.length using Nat.strongRecOn generalizing xs with
  | ind n ih =>
    subst hn
    cases h : P.next xs with
    | wait => exact ⟨[],by rw [search_wait P h]; rfl⟩
    | reject e => exact ⟨[],by rw [search_reject P h]; rfl⟩
    | item m rest =>
      obtain ⟨used,-,hx⟩ := P.takes h
      cases hm : hit m with
      | true => exact ⟨used,by rw [search_hit P h hm]; exact hx⟩
      | false =>
        obtain ⟨more,hr⟩ := ih _ (P.shrinks h) rest rfl
        refine ⟨used++more,?_⟩
        rw [search_miss P h hm,List.append_assoc]
        dsimp only
        rw [← hr]
        exact hx

theorem search_found (hit : μ → Bool) (xs : List α) {m : μ}
    (h : (search P hit xs).ending = .found m) : m ∈ (search P hit xs).items ∧ hit m = true := by
  induction hn : xs.length using Nat.strongRecOn generalizing xs with
  | ind n ih =>
    subst hn
    cases hx : P.next xs with
    | wait =>
      rw [search_wait P hx] at h
      cases h
    | reject e =>
      rw [search_reject P hx] at h
      cases h
    | item k rest =>
      cases hk : hit k with
      | true =>
        rw [search_hit P hx hk] at h ⊢
        obtain rfl := SearchEnd.found.inj h
        exact ⟨List.mem_singleton_self _,hk⟩
      | false =>
        rw [search_miss P hx hk] at h ⊢
        obtain ⟨hm,hh⟩ := ih _ (P.shrinks hx) rest h rfl
        exact ⟨List.mem_cons_of_mem k hm,hh⟩

theorem search_hits (hit : μ → Bool) (xs : List α) {k : μ} (hk : k ∈ (search P hit xs).items)
    (hhit : hit k = true) : (search P hit xs).ending = .found k := by
  induction hn : xs.length using Nat.strongRecOn generalizing xs with
  | ind n ih =>
    subst hn
    cases hx : P.next xs with
    | wait =>
      rw [search_wait P hx] at hk
      exact absurd hk List.not_mem_nil
    | reject e =>
      rw [search_reject P hx] at hk
      exact absurd hk List.not_mem_nil
    | item m rest =>
      cases hm : hit m with
      | true =>
        rw [search_hit P hx hm] at hk ⊢
        rw [List.mem_singleton.mp hk]
      | false =>
        rw [search_miss P hx hm] at hk ⊢
        cases List.mem_cons.mp hk with
        | inl h =>
          rw [h,hm] at hhit
          exact Bool.noConfusion hhit
        | inr h => exact ih _ (P.shrinks hx) rest h rfl

theorem resumes_search {all : List α} {taken : List μ} {held : List α}
    (h : Resumes P all taken held) (hit : μ → Bool) :
    Resumes P all (taken++(search P hit held).items) (search P hit held).rest := by
  induction hn : held.length using Nat.strongRecOn generalizing taken held with
  | ind n ih =>
    subst hn
    cases hx : P.next held with
    | wait => simpa [search_wait P hx] using h
    | reject e => simpa [search_reject P hx] using h
    | item m rest =>
      have hrest := resumes_item P h hx
      cases hm : hit m with
      | true => simpa [search_hit P hx hm] using hrest
      | false => simpa [search_miss P hx hm] using ih _ (P.shrinks hx) hrest rfl

/-- `write m` is a complete frame that is read back as `read m`, whatever
follows it. -/
structure Framing (P : Parser α μ ε) (Valid : μ → Prop) where
  write : μ → List α
  read : μ → μ
  next_write : ∀ {m} (rest : List α), Valid m → P.next (write m++rest) = .item (read m) rest
  next_nil : P.next [] = .wait

variable {P}
variable {Valid : μ → Prop} (F : Framing P Valid)

def Framing.stream (ms : List μ) : List α := ms.flatMap F.write

theorem drain_stream (ms : List μ) (hv : ∀ m ∈ ms, Valid m) :
    drain P (F.stream ms) = ⟨ms.map F.read,none,[]⟩ := by
  induction ms with
  | nil => exact drain_wait P F.next_nil
  | cons m ms ih =>
    have hm := F.next_write (F.stream ms) (hv m (by simp))
    rw [Framing.stream,List.flatMap_cons]
    rw [show List.flatMap F.write ms = F.stream ms from rfl,drain_item P hm,
      ih (fun k hk => hv k (by simp [hk]))]
    rfl

theorem resumes_stream (ms : List μ) (hv : ∀ m ∈ ms, Valid m) {all more : List α}
    {taken : List μ} {held : List α} (h : Resumes P all taken held)
    (hs : all++more = F.stream ms) : ∃ left, ms.map F.read = taken++left := by
  have hall := congrArg Drained.items (resumes_append P h more)
  rw [hs,drain_stream F ms hv] at hall
  exact ⟨_,hall⟩

theorem next_part {m : μ} (hv : Valid m) (held coming tail : List α)
    (hs : held++coming = F.write m++tail) :
    P.next held = .wait ∨
      ∃ rest, P.next held = .item (F.read m) rest ∧ rest++coming = tail := by
  have hfront : P.next (held++coming) = .item (F.read m) tail := by
    rw [hs]
    exact F.next_write tail hv
  cases h : P.next held with
  | wait => exact Or.inl rfl
  | reject e =>
    rw [P.reject_extends coming h] at hfront
    simp at hfront
  | item k rest =>
    rw [P.item_extends coming h] at hfront
    obtain ⟨rfl,hrest⟩ := Outcome.item.inj hfront
    exact Or.inr ⟨rest,rfl,hrest⟩

/-- A search in a part of a stream that brings, after frames that are no
hits, a frame that is one: it stops at that frame, or waits with the rest
of the same stream ahead. -/
theorem search_reaches (hit : μ → Bool) (ms : List μ) (hv : ∀ m ∈ ms, Valid m)
    (hms : ∀ m ∈ ms, hit (F.read m) = false) {k : μ} (hk : Valid k) (hhit : hit (F.read k) = true)
    (held coming more : List α) (hs : held++coming = F.stream ms++(F.write k++more)) :
    (search P hit held).ending = .found (F.read k) ∧ (search P hit held).rest++coming = more ∨
      (search P hit held).ending = .waits ∧ P.next (search P hit held).rest = .wait ∧
      ∃ left, (∀ m ∈ left, m ∈ ms) ∧
        (search P hit held).rest++coming = F.stream left++(F.write k++more) := by
  induction ms generalizing held with
  | nil =>
    rcases next_part F hk held coming more hs with hw | ⟨rest,hi,hr⟩
    · rw [search_wait P hw]
      exact Or.inr ⟨rfl,hw,[],by simp,hs⟩
    · rw [search_hit P hi hhit]
      exact Or.inl ⟨rfl,hr⟩
  | cons m ms ih =>
    rw [Framing.stream,List.flatMap_cons,List.append_assoc] at hs
    rcases next_part F (hv m (by simp)) held coming _ hs with hw | ⟨rest,hi,hr⟩
    · rw [search_wait P hw]
      refine Or.inr ⟨rfl,hw,m::ms,fun _ h => h,?_⟩
      rw [hs,Framing.stream,List.flatMap_cons,List.append_assoc]
    · rw [search_miss P hi (hms m (by simp))]
      rcases ih (fun j hj => hv j (by simp [hj])) (fun j hj => hms j (by simp [hj])) rest hr with
        hf | ⟨hw,hn,left,hl,hrest⟩
      · exact Or.inl hf
      · exact Or.inr ⟨hw,hn,left,fun j hj => by simp [hl j hj],hrest⟩

theorem wait_short {left : List μ} (hv : ∀ m ∈ left, Valid m) {k : μ} (hk : Valid k)
    (held more : List α) (hwait : P.next held = .wait) :
    held ≠ F.stream left++(F.write k++more) := by
  rintro rfl
  cases left with
  | nil => exact absurd (hwait.symm.trans (F.next_write more hk)) (by simp)
  | cons m left =>
    rw [Framing.stream,List.flatMap_cons,List.append_assoc] at hwait
    exact absurd (hwait.symm.trans (F.next_write _ (hv m (by simp)))) (by simp)

end MiniRpc.Incremental
