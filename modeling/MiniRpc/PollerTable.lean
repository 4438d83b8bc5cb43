import MiniRpc.EventChannel
import MiniRpc.KeyedTable
import MiniRpc.StepMachine

/-!
# The table of the poller and the kernel's interest set

`EpollPoller` chooses between `ADD`, `MOD` and `DEL` from its own map, which
is keyed by descriptor numbers. The kernel keeps its own set, from which a
descriptor disappears when it is closed, and hands the number out again.

Objects that own a channel are numbered in the order of their creation, and
such a number stands for the address of the channel. A descriptor is closed
by its owner; `closeOther` closes those that no object of this loop owns.
`epoll_ctl` fails here only for what the tables disagree on, so `ENOMEM` and
the like are left out.
-/

set_option autoImplicit false

namespace MiniRpc.PollerTable
open MiniRpc.EventChannel MiniRpc.KeyedTable MiniRpc.StepMachine

inductive Kind where
  | wakeup
  | server
  | connection
  deriving DecidableEq, Repr

structure Owner where
  kind : Kind
  fd : ℕ
  events : Events := {}
  started : Bool := false
  alive : Bool := true
  deriving DecidableEq, Repr

inductive Operation where
  | add
  | mod
  | del
  deriving DecidableEq, Repr

inductive CtlError where
  | eexist
  | enoent
  deriving DecidableEq, Repr

structure Ctl where
  operation : Operation
  fd : ℕ
  error : Option CtlError
  deriving DecidableEq, Repr

/-- `interest` is the kernel's set: `data.ptr` and `events` of each entry. -/
structure EpollPoller where
  channels : Table ℕ ℕ := ∅
  interest : Table ℕ (ℕ × Events) := ∅

def epollCtl (interest : Table ℕ (ℕ × Events)) (fd : ℕ) (event : ℕ × Events) :
    Operation → Table ℕ (ℕ × Events) × Option CtlError
  | .add =>
    if (interest.lookup fd).isSome then (interest,some .eexist) else (interest.insert fd event,none)
  | .mod =>
    if (interest.lookup fd).isSome then (interest.insert fd event,none) else (interest,some .enoent)
  | .del =>
    if (interest.lookup fd).isSome then (interest.erase fd,none) else (interest,some .enoent)

/-- A failed call is logged and otherwise ignored. -/
def EpollPoller.update (p : EpollPoller) (operation : Operation) (id : ℕ) (o : Owner) :
    EpollPoller × List Ctl :=
  let r := epollCtl p.interest o.fd (id,o.events) operation
  ({ p with interest := r.1 },[⟨operation,o.fd,r.2⟩])

def EpollPoller.drop (p : EpollPoller) (id : ℕ) (o : Owner) : EpollPoller × List Ctl :=
  let r := p.update .del id o
  ({ r.1 with channels := r.1.channels.erase o.fd },r.2)

def EpollPoller.updateChannel (p : EpollPoller) (id : ℕ) (o : Owner) : EpollPoller × List Ctl :=
  match p.channels.lookup o.fd with
  | none =>
    if o.events.isNoneEvent then (p,[])
    else { p with channels := p.channels.insert o.fd id }.update .add id o
  | some _ => if o.events.isNoneEvent then p.drop id o else p.update .mod id o

def EpollPoller.removeChannel (p : EpollPoller) (id : ℕ) (o : Owner) : EpollPoller × List Ctl :=
  match p.channels.lookup o.fd with
  | none => (p,[])
  | some _ => p.drop id o

structure EventLoop where
  poller : EpollPoller
  opened : List ℕ
  owners : List Owner

inductive Input where
  | createServer (fd : ℕ)
  | createConnection (fd : ℕ)
  | start (id : ℕ)
  | change (id : ℕ) (c : EventChange)
  | remove (id : ℕ)
  | destroy (id : ℕ)
  | openOther (fd : ℕ)
  | closeOther (fd : ℕ)
  deriving DecidableEq, Repr

/-- The kernel only hands out numbers that are not in use. -/
def EventLoop.create (s : EventLoop) (kind : Kind) (fd : ℕ) : EventLoop :=
  if fd ∈ s.opened then s
  else { s with opened := fd::s.opened, owners := s.owners++[{ kind := kind, fd := fd }] }

def EventLoop.change (s : EventLoop) (id : ℕ) (o : Owner) (c : EventChange) :
    EventLoop × List Ctl :=
  let o' := { o with events := c.apply o.events }
  let r := s.poller.updateChannel id o'
  ({ s with poller := r.1, owners := s.owners.set id o' },r.2)

/-- `::close`, which takes the descriptor out of the kernel's set. -/
def EventLoop.close (s : EventLoop) (fd : ℕ) : EventLoop :=
  { s with poller := { s.poller with interest := s.poller.interest.erase fd },
           opened := s.opened.filter fun x => x ≠ fd }

def EventLoop.release (s : EventLoop) (id : ℕ) (o : Owner) : EventLoop :=
  let s' := s.close o.fd
  { s' with owners := s'.owners.set id { o with alive := false } }

def EventLoop.start (s : EventLoop) (id : ℕ) (o : Owner) : EventLoop × List Ctl :=
  if o.started then (s,[]) else s.change id { o with started := true } .enableReading

def EventLoop.destroy (s : EventLoop) (id : ℕ) (o : Owner) : EventLoop × List Ctl :=
  match o.kind with
  | .wakeup => (s,[])
  -- the destructor of `TcpServer` is the default one
  | .server => (s.release id o,[])
  | .connection =>
    let r := s.change id o .disableAll
    (r.1.release id { o with events := {} },r.2)

def EventLoop.live (s : EventLoop) (id : ℕ) : Option Owner :=
  s.owners[id]?.filter Owner.alive

def EventLoop.owned (s : EventLoop) (fd : ℕ) : Bool :=
  s.owners.any fun o => o.alive && o.fd == fd

def loopStep (s : EventLoop) : Input → EventLoop × List Ctl
  | .createServer fd => (s.create .server fd,[])
  | .createConnection fd => (s.create .connection fd,[])
  | .start id =>
    match s.live id with
    | none => (s,[])
    | some o => if o.kind = .server then s.start id o else (s,[])
  | .change id c =>
    match s.live id with
    | none => (s,[])
    | some o => s.change id o c
  | .remove id =>
    match s.live id with
    | none => (s,[])
    | some o =>
      let r := s.poller.removeChannel id o
      ({ s with poller := r.1 },r.2)
  | .destroy id =>
    match s.live id with
    | none => (s,[])
    | some o => s.destroy id o
  | .openOther fd => (if fd ∈ s.opened then s else { s with opened := fd::s.opened },[])
  | .closeOther fd => (if s.owned fd then s else s.close fd,[])

def poller : Machine EventLoop Input Ctl := ⟨loopStep⟩

def newLoop (wakeupFd : ℕ) : EventLoop :=
  let s : EventLoop :=
    { poller := {}, opened := [wakeupFd], owners := [{ kind := .wakeup, fd := wakeupFd }] }
  (s.change 0 { kind := .wakeup, fd := wakeupFd } .enableReading).1

def EpollPoller.view (p : EpollPoller) (fd : ℕ) : Option ℕ × Option (ℕ × Events) :=
  (p.channels.lookup fd,p.interest.lookup fd)

def entry (id : ℕ) (e : Events) : Option ℕ × Option (ℕ × Events) := (some id,some (id,e))

/-- The result `r` differs from `p` at `fd` only, where the tables now hold
`v`, and no call failed. -/
structure Written (p : EpollPoller) (fd : ℕ) (v : Option ℕ × Option (ℕ × Events))
    (r : EpollPoller × List Ctl) : Prop where
  view : ∀ x, r.1.view x = if x = fd then v else p.view x
  succeeds : ∀ c ∈ r.2, c.error = none

theorem written_same (p : EpollPoller) (fd : ℕ) : Written p fd (p.view fd) (p,[]) := by
  refine ⟨fun x => ?_,by simp⟩
  by_cases hx : x = fd
  · rw [if_pos hx,hx]
  · rw [if_neg hx]

theorem drop_written (p : EpollPoller) (id : ℕ) (o : Owner) (e : Events)
    (h : p.view o.fd = entry id e) : Written p o.fd (none,none) (p.drop id o) := by
  have hk : p.interest.lookup o.fd = some (id,e) := congrArg Prod.snd h
  constructor
  · intro x
    simp only [EpollPoller.drop,EpollPoller.update,epollCtl,hk,Option.isSome_some,if_true,
      EpollPoller.view,lookup_erase_cases]
    by_cases hx : x = o.fd
    · simp only [if_pos hx]
    · simp only [if_neg hx]
  · simp [EpollPoller.drop,EpollPoller.update,epollCtl,hk]

theorem updateChannel_written (p : EpollPoller) (id : ℕ) (o : Owner)
    (h : p.view o.fd = (none,none) ∨ ∃ e, p.view o.fd = entry id e) :
    Written p o.fd (if o.events.isNoneEvent then (none,none) else entry id o.events)
      (p.updateChannel id o) := by
  cases h with
  | inl h =>
    have hc : p.channels.lookup o.fd = none := congrArg Prod.fst h
    have hk : p.interest.lookup o.fd = none := congrArg Prod.snd h
    rw [EpollPoller.updateChannel,hc]
    cases he : o.events.isNoneEvent with
    | true =>
      have hw := written_same p o.fd
      rw [h] at hw
      simpa using hw
    | false =>
      constructor
      · intro x
        by_cases hx : x = o.fd
        · rw [hx]
          simp [EpollPoller.update,epollCtl,hk,EpollPoller.view,entry]
        · simp [EpollPoller.update,epollCtl,hk,EpollPoller.view,hx]
      · simp [EpollPoller.update,epollCtl,hk]
  | inr h =>
    obtain ⟨e,h⟩ := h
    have hc : p.channels.lookup o.fd = some id := congrArg Prod.fst h
    have hk : p.interest.lookup o.fd = some (id,e) := congrArg Prod.snd h
    rw [EpollPoller.updateChannel,hc]
    cases he : o.events.isNoneEvent with
    | true => simpa using drop_written p id o e h
    | false =>
      constructor
      · intro x
        by_cases hx : x = o.fd
        · rw [hx]
          simp [EpollPoller.update,epollCtl,hk,EpollPoller.view,entry,hc]
        · simp [EpollPoller.update,epollCtl,hk,EpollPoller.view,hx]
      · simp [EpollPoller.update,epollCtl,hk]

theorem removeChannel_written (p : EpollPoller) (id : ℕ) (o : Owner)
    (h : p.view o.fd = (none,none) ∨ ∃ e, p.view o.fd = entry id e) :
    Written p o.fd (none,none) (p.removeChannel id o) := by
  cases h with
  | inl h =>
    have hc : p.channels.lookup o.fd = none := congrArg Prod.fst h
    have hw := written_same p o.fd
    rw [h] at hw
    rw [EpollPoller.removeChannel,hc]
    exact hw
  | inr h =>
    obtain ⟨e,h⟩ := h
    have hc : p.channels.lookup o.fd = some id := congrArg Prod.fst h
    rw [EpollPoller.removeChannel,hc]
    exact drop_written p id o e h

structure Owned (s : EventLoop) : Prop where
  opened : ∀ (id : ℕ) o, s.owners[id]? = some o → o.alive = true → o.fd ∈ s.opened
  unique : ∀ (i j : ℕ) a b, s.owners[i]? = some a → s.owners[j]? = some b →
    a.alive = true → b.alive = true → a.fd = b.fd → i = j

/-- A descriptor is in neither table, or in both with an existing object's
channel and its events. -/
def AgreesAt (p : EpollPoller) (owners : List Owner) (fd : ℕ) : Prop :=
  p.view fd = (none,none) ∨ ∃ (id : ℕ) (o : Owner), owners[id]? = some o ∧ o.alive = true ∧
    o.fd = fd ∧ p.view fd = entry id o.events

def Agreement (s : EventLoop) (calls : List Ctl) : Prop :=
  (∀ fd, AgreesAt s.poller s.owners fd) ∧ ∀ c ∈ calls, c.error = none

def forgetsChannel (s : EventLoop) : Input → Bool
  | .destroy id =>
    match s.live id with
    | none => false
    | some o => o.kind == .server && (s.poller.channels.lookup o.fd).isSome
  | _ => false

theorem live_iff (s : EventLoop) (id : ℕ) (o : Owner) :
    s.live id = some o ↔ s.owners[id]? = some o ∧ o.alive = true := by
  rw [EventLoop.live,Option.filter_eq_some_iff]

theorem view_of_live {s : EventLoop} (hs : Owned s) (ha : ∀ fd, AgreesAt s.poller s.owners fd)
    {id : ℕ} {o : Owner} (ho : s.live id = some o) :
    s.poller.view o.fd = (none,none) ∨ ∃ e, s.poller.view o.fd = entry id e := by
  obtain ⟨hget,halive⟩ := (live_iff s id o).mp ho
  cases ha o.fd with
  | inl h => exact .inl h
  | inr h =>
    obtain ⟨j,b,hb,hbalive,hbfd,hview⟩ := h
    have hj := hs.unique j id b o hb hget hbalive halive hbfd
    rw [hj] at hview
    exact .inr ⟨b.events,hview⟩

theorem agrees_set {s : EventLoop} (ha : ∀ fd, AgreesAt s.poller s.owners fd) {id : ℕ} {o o' : Owner}
    (ho : s.owners[id]? = some o) {p : EpollPoller} {v : Option ℕ × Option (ℕ × Events)}
    (hp : ∀ x, p.view x = if x = o'.fd then v else s.poller.view x) (hfd : o'.fd = o.fd)
    (hv : v = (none,none) ∨ o'.alive = true ∧ v = entry id o'.events) (fd : ℕ) :
    AgreesAt p (s.owners.set id o') fd := by
  have hlt : id < s.owners.length := (List.getElem?_eq_some_iff.mp ho).1
  by_cases hx : fd = o'.fd
  · rw [AgreesAt,hp,if_pos hx]
    cases hv with
    | inl h => exact .inl h
    | inr h => exact .inr ⟨id,o',List.getElem?_set_self hlt,h.1,hx.symm,h.2⟩
  · rw [AgreesAt,hp,if_neg hx]
    cases ha fd with
    | inl h => exact .inl h
    | inr h =>
      obtain ⟨j,b,hb,hbalive,hbfd,hview⟩ := h
      have hj : id ≠ j := by
        rintro rfl
        rw [ho] at hb
        rw [← Option.some.inj hb] at hbfd
        exact hx (hbfd.symm.trans hfd.symm)
      exact .inr ⟨j,b,by rw [List.getElem?_set_ne hj,hb],hbalive,hbfd,hview⟩

theorem set_owned {s : EventLoop} (hs : Owned s) {id : ℕ} {o : Owner} (ho : s.live id = some o)
    (o' : Owner) (hfd : o'.fd = o.fd) {s' : EventLoop} (hopen : s'.opened = s.opened)
    (howners : s'.owners = s.owners.set id o') : Owned s' := by
  obtain ⟨hget,halive⟩ := (live_iff s id o).mp ho
  have hlt : id < s.owners.length := (List.getElem?_eq_some_iff.mp hget).1
  have hback : ∀ (j : ℕ) b, s'.owners[j]? = some b → b.alive = true →
      ∃ c, s.owners[j]? = some c ∧ c.alive = true ∧ c.fd = b.fd := by
    intro j b hb hbalive
    rw [howners] at hb
    by_cases hj : id = j
    · rw [← hj,List.getElem?_set_self hlt] at hb
      rw [← hj]
      exact ⟨o,hget,halive,hfd.symm.trans (congrArg Owner.fd (Option.some.inj hb))⟩
    · rw [List.getElem?_set_ne hj] at hb
      exact ⟨b,hb,hbalive,rfl⟩
  constructor
  · intro j b hb hbalive
    obtain ⟨c,hc,hcalive,hcfd⟩ := hback j b hb hbalive
    rw [hopen,← hcfd]
    exact hs.opened j c hc hcalive
  · intro i j a b ha hb haalive hbalive hab
    obtain ⟨c,hc,hcalive,hcfd⟩ := hback i a ha haalive
    obtain ⟨d,hd,hdalive,hdfd⟩ := hback j b hb hbalive
    exact hs.unique i j c d hc hd hcalive hdalive (hcfd.trans (hab.trans hdfd.symm))

theorem create_owned {s : EventLoop} (hs : Owned s) (kind : Kind) (fd : ℕ) :
    Owned (s.create kind fd) := by
  rw [EventLoop.create]
  split
  · exact hs
  · next hfresh =>
    have hcases : ∀ (j : ℕ) b, (s.owners++[{ kind := kind, fd := fd }])[j]? = some b →
        s.owners[j]? = some b ∨ j = s.owners.length ∧ b.fd = fd := by
      intro j b hb
      by_cases hj : j < s.owners.length
      · rw [List.getElem?_append_left hj] at hb
        exact .inl hb
      · rw [List.getElem?_append_right (Nat.le_of_not_lt hj),List.getElem?_singleton] at hb
        split at hb
        · exact .inr ⟨by omega,(congrArg Owner.fd (Option.some.inj hb)).symm⟩
        · exact absurd hb.symm (Option.some_ne_none b)
    constructor
    · intro j b hb hbalive
      cases hcases j b hb with
      | inl h => exact List.mem_cons_of_mem fd (hs.opened j b h hbalive)
      | inr h => exact h.2 ▸ List.mem_cons_self
    · intro i j a b ha hb haalive hbalive hab
      cases hcases i a ha with
      | inl h =>
        cases hcases j b hb with
        | inl h' => exact hs.unique i j a b h h' haalive hbalive hab
        | inr h' => exact absurd (h'.2 ▸ hab ▸ hs.opened i a h haalive) hfresh
      | inr h =>
        cases hcases j b hb with
        | inl h' => exact absurd (h.2 ▸ hab.symm ▸ hs.opened j b h' hbalive) hfresh
        | inr h' => rw [h.1,h'.1]

theorem close_owned {s : EventLoop} (hs : Owned s) (fd : ℕ)
    (hfree : ∀ (id : ℕ) o, s.owners[id]? = some o → o.alive = true → o.fd ≠ fd) :
    Owned (s.close fd) := by
  constructor
  · intro j b hb hbalive
    have hmem := hs.opened j b hb hbalive
    have hne := hfree j b hb hbalive
    simp [EventLoop.close,hmem,hne]
  · exact hs.unique

theorem release_owned {s : EventLoop} (hs : Owned s) {id : ℕ} {o : Owner} (ho : s.live id = some o) :
    Owned (s.release id o) := by
  obtain ⟨hget,halive⟩ := (live_iff s id o).mp ho
  have hlt : id < s.owners.length := (List.getElem?_eq_some_iff.mp hget).1
  have hdead : Owned { s with owners := s.owners.set id { o with alive := false } } :=
    set_owned hs ho { o with alive := false } rfl rfl rfl
  refine close_owned hdead o.fd ?_
  intro j b hb hbalive hbfd
  by_cases hj : id = j
  · rw [← hj,List.getElem?_set_self hlt] at hb
    rw [← Option.some.inj hb] at hbalive
    exact Bool.noConfusion hbalive
  · rw [List.getElem?_set_ne hj] at hb
    exact hj (hs.unique id j o b hget hb halive hbalive hbfd.symm)

theorem owned_false {s : EventLoop} {fd : ℕ} (h : s.owned fd = false) (id : ℕ) (o : Owner)
    (ho : s.owners[id]? = some o) (halive : o.alive = true) : o.fd ≠ fd := by
  intro hfd
  have hno := List.any_eq_false.mp h o (List.mem_of_getElem? ho)
  simp [halive,hfd] at hno

/-- What one step does to the tables and the objects: nothing that the
agreement depends on, a change of one object with its entries, or the
destruction of an object. -/
inductive Effect (s : EventLoop) : Input → EventLoop × List Ctl → Prop
  | idle (i : Input) (hf : forgetsChannel s i = false) : Effect s i (s,[])
  | creates (i : Input) (kind : Kind) (fd : ℕ) (hf : forgetsChannel s i = false) :
    Effect s i (s.create kind fd,[])
  | opens (fd : ℕ) : Effect s (.openOther fd) ({ s with opened := fd::s.opened },[])
  | closes (fd : ℕ) (hfree : s.owned fd = false) : Effect s (.closeOther fd) (s.close fd,[])
  | changes (i : Input) (id : ℕ) (o o' : Owner) (c : EventChange) (ho : s.live id = some o)
      (hf : forgetsChannel s i = false) (hfd : o'.fd = o.fd) (halive : o'.alive = true) :
    Effect s i (s.change id o' c)
  | removes (id : ℕ) (o : Owner) (ho : s.live id = some o) :
    Effect s (.remove id) ({ s with poller := (s.poller.removeChannel id o).1 },
      (s.poller.removeChannel id o).2)
  | leaves (id : ℕ) (o : Owner) (ho : s.live id = some o) (hk : o.kind = .server) :
    Effect s (.destroy id) (s.release id o,[])
  | destroys (id : ℕ) (o : Owner) (ho : s.live id = some o) (hk : o.kind = .connection) :
    Effect s (.destroy id)
      ((s.change id o .disableAll).1.release id { o with events := {} },
        (s.change id o .disableAll).2)

theorem step_effect (s : EventLoop) (i : Input) : Effect s i (loopStep s i) := by
  cases i with
  | createServer fd => exact .creates _ .server fd rfl
  | createConnection fd => exact .creates _ .connection fd rfl
  | start id =>
    rw [loopStep]
    cases ho : s.live id with
    | none => exact .idle _ rfl
    | some o =>
      dsimp only
      by_cases hk : o.kind = .server
      · rw [if_pos hk,EventLoop.start]
        cases hst : o.started with
        | true => exact .idle _ rfl
        | false =>
          exact .changes _ id o { o with started := true } .enableReading ho rfl rfl
            ((live_iff s id o).mp ho).2
      · rw [if_neg hk]
        exact .idle _ rfl
  | change id c =>
    rw [loopStep]
    cases ho : s.live id with
    | none => exact .idle _ rfl
    | some o => exact .changes _ id o o c ho rfl rfl ((live_iff s id o).mp ho).2
  | remove id =>
    rw [loopStep]
    cases ho : s.live id with
    | none => exact .idle _ rfl
    | some o => exact .removes id o ho
  | destroy id =>
    rw [loopStep]
    cases ho : s.live id with
    | none => exact .idle _ (by rw [forgetsChannel,ho])
    | some o =>
      dsimp only
      rw [EventLoop.destroy]
      cases hk : o.kind with
      | wakeup => exact .idle _ (by simp [forgetsChannel,ho,hk])
      | server => exact .leaves id o ho hk
      | connection => simpa only [hk] using Effect.destroys id o ho hk
  | openOther fd =>
    rw [loopStep]
    split
    · exact .idle _ rfl
    · exact .opens fd
  | closeOther fd =>
    rw [loopStep]
    cases hfree : s.owned fd with
    | true => exact .idle _ rfl
    | false => exact .closes fd hfree

theorem step_owned (s : EventLoop) (i : Input) (hs : Owned s) : Owned (loopStep s i).1 := by
  have he := step_effect s i
  generalize loopStep s i = r at he ⊢
  cases he with
  | idle _ _ => exact hs
  | creates _ kind fd _ => exact create_owned hs kind fd
  | opens fd =>
    exact ⟨fun id o ho halive => List.mem_cons_of_mem fd (hs.opened id o ho halive),hs.unique⟩
  | closes fd hfree => exact close_owned hs fd (owned_false hfree)
  | changes _ id o o' c ho _ hfd _ =>
    exact set_owned hs ho { o' with events := c.apply o'.events } hfd rfl rfl
  | removes id o ho => exact ⟨hs.opened,hs.unique⟩
  | leaves id o ho _ => exact release_owned hs ho
  | destroys id o ho _ =>
    have hs' : Owned (s.change id o .disableAll).1 := set_owned hs ho { o with events := {} } rfl rfl rfl
    obtain ⟨hget,halive⟩ := (live_iff s id o).mp ho
    have hlt : id < s.owners.length := (List.getElem?_eq_some_iff.mp hget).1
    exact release_owned hs' ((live_iff _ id _).mpr ⟨List.getElem?_set_self hlt,halive⟩)

theorem change_agrees {s : EventLoop} (hs : Owned s) (ha : ∀ fd, AgreesAt s.poller s.owners fd)
    {id : ℕ} {o : Owner} (ho : s.live id = some o) (o' : Owner) (c : EventChange)
    (hfd : o'.fd = o.fd) (halive : o'.alive = true) :
    Agreement (s.change id o' c).1 (s.change id o' c).2 := by
  have hview : s.poller.view o'.fd = (none,none) ∨ ∃ e, s.poller.view o'.fd = entry id e := by
    rw [hfd]
    exact view_of_live hs ha ho
  have hw := updateChannel_written s.poller id { o' with events := c.apply o'.events } hview
  refine ⟨agrees_set ha ((live_iff s id o).mp ho).1 hw.view hfd ?_,hw.succeeds⟩
  cases hn : (c.apply o'.events).isNoneEvent with
  | true => exact .inl (if_pos rfl)
  | false => exact .inr ⟨halive,if_neg Bool.false_ne_true⟩

theorem close_view (s : EventLoop) (fd x : ℕ) :
    (s.close fd).poller.view x = if x = fd then (s.poller.channels.lookup fd,none)
      else s.poller.view x := by
  rw [EventLoop.close,EpollPoller.view,lookup_erase_cases]
  by_cases hx : x = fd
  · rw [if_pos hx,if_pos hx,hx]
  · rw [if_neg hx,if_neg hx,EpollPoller.view]

theorem release_agrees {s : EventLoop} (ha : ∀ fd, AgreesAt s.poller s.owners fd) {id : ℕ} {o : Owner}
    (ho : s.live id = some o) :
    (∀ fd, AgreesAt (s.release id o).poller (s.release id o).owners fd) ↔
      s.poller.channels.lookup o.fd = none := by
  constructor
  · intro h
    have hview : (s.release id o).poller.view o.fd = (s.poller.channels.lookup o.fd,none) := by
      rw [show (s.release id o).poller = (s.close o.fd).poller from rfl,close_view,if_pos rfl]
    cases h o.fd with
    | inl h' => exact congrArg Prod.fst (hview.symm.trans h')
    | inr h' =>
      obtain ⟨j,b,_,_,_,hb⟩ := h'
      have hnone := congrArg Prod.snd (hview.symm.trans hb)
      exact absurd hnone.symm (Option.some_ne_none _)
  · intro hc
    have hp := close_view s o.fd
    rw [hc] at hp
    exact agrees_set ha ((live_iff s id o).mp ho).1 hp rfl (.inl rfl)

theorem view_absent_of_free {s : EventLoop} (ha : ∀ fd, AgreesAt s.poller s.owners fd) {fd : ℕ}
    (hfree : s.owned fd = false) : s.poller.view fd = (none,none) := by
  cases ha fd with
  | inl h => exact h
  | inr h =>
    obtain ⟨j,b,hb,hbalive,hbfd,_⟩ := h
    exact absurd hbfd (owned_false hfree j b hb hbalive)

theorem close_agrees {s : EventLoop} (ha : ∀ fd, AgreesAt s.poller s.owners fd) {fd : ℕ}
    (hfree : s.owned fd = false) (x : ℕ) :
    AgreesAt (s.close fd).poller (s.close fd).owners x := by
  have hview : (s.close fd).poller.view x = s.poller.view x := by
    rw [close_view]
    split
    · next hx =>
      have habs := view_absent_of_free ha hfree
      rw [hx,habs,show s.poller.channels.lookup fd = none from congrArg Prod.fst habs]
    · rfl
  rw [AgreesAt,hview]
  exact ha x

theorem create_agrees {s : EventLoop} (ha : ∀ fd, AgreesAt s.poller s.owners fd) (kind : Kind)
    (fd x : ℕ) : AgreesAt (s.create kind fd).poller (s.create kind fd).owners x := by
  rw [EventLoop.create]
  split
  · exact ha x
  · cases ha x with
    | inl h => exact .inl h
    | inr h =>
      obtain ⟨j,b,hb,hrest⟩ := h
      have hlt : j < s.owners.length := (List.getElem?_eq_some_iff.mp hb).1
      exact .inr ⟨j,b,(List.getElem?_append_left hlt).trans hb,hrest⟩

theorem remove_agrees {s : EventLoop} (hs : Owned s) (ha : ∀ fd, AgreesAt s.poller s.owners fd)
    {id : ℕ} {o : Owner} (ho : s.live id = some o) :
    Agreement { s with poller := (s.poller.removeChannel id o).1 }
      (s.poller.removeChannel id o).2 := by
  have hw := removeChannel_written s.poller id o (view_of_live hs ha ho)
  refine ⟨fun x => ?_,hw.succeeds⟩
  by_cases hx : x = o.fd
  · exact .inl ((hw.view x).trans (if_pos hx))
  · rw [AgreesAt,hw.view,if_neg hx]
    exact ha x

theorem destroy_agrees {s : EventLoop} (hs : Owned s) (ha : ∀ fd, AgreesAt s.poller s.owners fd)
    {id : ℕ} {o : Owner} (ho : s.live id = some o) :
    Agreement ((s.change id o .disableAll).1.release id { o with events := {} })
      (s.change id o .disableAll).2 := by
  obtain ⟨hget,halive⟩ := (live_iff s id o).mp ho
  have hlt : id < s.owners.length := (List.getElem?_eq_some_iff.mp hget).1
  have hc := change_agrees hs ha ho o .disableAll rfl halive
  have ho' : (s.change id o .disableAll).1.live id = some { o with events := {} } :=
    (live_iff _ id _).mpr ⟨List.getElem?_set_self hlt,halive⟩
  refine ⟨(release_agrees hc.1 ho').mpr ?_,hc.2⟩
  have hview := view_of_live hs ha ho
  have hw := (updateChannel_written s.poller id { o with events := {} } hview).view o.fd
  rw [if_pos rfl] at hw
  exact congrArg Prod.fst hw

theorem step_agreement (s : EventLoop) (calls : List Ctl) (i : Input) (hs : Owned s)
    (ha : Agreement s calls) :
    Agreement (loopStep s i).1 (calls++(loopStep s i).2) ↔ forgetsChannel s i = false := by
  have hext : ∀ r : EventLoop × List Ctl, Agreement r.1 (calls++r.2) ↔ Agreement r.1 r.2 := by
    intro r
    constructor
    · exact fun h => ⟨h.1,fun c hc => h.2 c (List.mem_append_right calls hc)⟩
    · intro h
      refine ⟨h.1,fun c hc => ?_⟩
      cases List.mem_append.mp hc with
      | inl hold => exact ha.2 c hold
      | inr hnew => exact h.2 c hnew
  rw [hext]
  have he := step_effect s i
  generalize loopStep s i = r at he ⊢
  have hnil : ∀ c : Ctl, c ∈ ([] : List Ctl) → c.error = none := fun c hc => absurd hc List.not_mem_nil
  cases he with
  | idle _ hf => exact iff_of_true ⟨ha.1,hnil⟩ hf
  | creates _ kind fd hf => exact iff_of_true ⟨create_agrees ha.1 kind fd,hnil⟩ hf
  | opens fd => exact iff_of_true ⟨ha.1,hnil⟩ rfl
  | closes fd hfree => exact iff_of_true ⟨close_agrees ha.1 hfree,hnil⟩ rfl
  | changes _ id o o' c ho hf hfd halive =>
    exact iff_of_true (change_agrees hs ha.1 ho o' c hfd halive) hf
  | removes id o ho => exact iff_of_true (remove_agrees hs ha.1 ho) rfl
  | leaves id o ho hk =>
    have hf : forgetsChannel s (.destroy id) = (s.poller.channels.lookup o.fd).isSome := by
      simp [forgetsChannel,ho,hk]
    rw [hf,Option.isSome_eq_false_iff,Option.isNone_iff_eq_none,← release_agrees ha.1 ho]
    exact ⟨fun h => h.1,fun h => ⟨h,hnil⟩⟩
  | destroys id o ho hk =>
    exact iff_of_true (destroy_agrees hs ha.1 ho) (by simp [forgetsChannel,ho,hk])

theorem newLoop_owned (wakeupFd : ℕ) : Owned (newLoop wakeupFd) := by
  have hone : ∀ (id : ℕ) o, (newLoop wakeupFd).owners[id]? = some o → id = 0 ∧ o.fd = wakeupFd := by
    intro id o ho
    have howners : (newLoop wakeupFd).owners =
        [{ kind := .wakeup, fd := wakeupFd, events := { reading := true } }] := rfl
    rw [howners,List.getElem?_singleton] at ho
    split at ho
    · next h0 => exact ⟨h0,(congrArg Owner.fd (Option.some.inj ho)).symm⟩
    · exact absurd ho.symm (Option.some_ne_none o)
  constructor
  · intro id o ho _
    rw [(hone id o ho).2]
    exact List.mem_singleton.mpr rfl
  · intro i j a b ha hb _ _ _
    rw [(hone i a ha).1,(hone j b hb).1]

theorem newLoop_agrees (wakeupFd : ℕ) : Agreement (newLoop wakeupFd) [] := by
  let s : EventLoop :=
    { poller := {}, opened := [wakeupFd], owners := [{ kind := .wakeup, fd := wakeupFd }] }
  have hview : ∀ fd, s.poller.view fd = (none,none) := fun _ => rfl
  have hw := updateChannel_written s.poller 0
    { kind := .wakeup, fd := wakeupFd, events := { reading := true } } (.inl (hview wakeupFd))
  have hget : s.owners[0]? = some { kind := .wakeup, fd := wakeupFd } := rfl
  exact ⟨agrees_set (fun fd => .inl (hview fd)) hget hw.view rfl (.inr ⟨rfl,rfl⟩),
    fun c hc => absurd hc List.not_mem_nil⟩

/-- The two tables agree throughout a history, and no call of `epoll_ctl` in
it fails, exactly when no server is destroyed while its accept channel is
registered. -/
theorem poller_agrees_iff (wakeupFd : ℕ) (is : List Input) :
    Always poller Agreement (newLoop wakeupFd) [] is ↔
      Along poller (fun s i => forgetsChannel s i = false) (newLoop wakeupFd) is :=
  always_iff_along poller (fun s i => forgetsChannel s i = false) (fun s _ => Owned s) Agreement
    (fun s _ i hs => step_owned s i hs) (fun s calls i hs ha => step_agreement s calls i hs ha)
    (newLoop wakeupFd) [] is (newLoop_owned wakeupFd) (newLoop_agrees wakeupFd)

/-- A started server is destroyed; the number of its socket is reused by a
connection of the same loop, whose `enableReading` becomes a `MOD` that the
kernel rejects: the connection is never polled. -/
theorem destroyed_server_stays_in_table :
    let s := poller.run (newLoop 3) [.createServer 5,.start 1,.destroy 1,.createConnection 5,
      .change 2 .enableReading]
    s.2 = [⟨.add,5,none⟩,⟨.mod,5,some .enoent⟩] ∧ s.1.poller.view 5 = (some 1,none) ∧
      ¬ Along poller (fun s i => forgetsChannel s i = false) (newLoop 3)
        [.createServer 5,.start 1,.destroy 1] := by
  decide +kernel

end MiniRpc.PollerTable
