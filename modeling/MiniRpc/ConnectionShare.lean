import MiniRpc.AcceptLoop
import MiniRpc.TurnCounter

/-!
# How connections are shared among the io loops

`handleNewConnection` goes through the io loops in turn. Whatever the loops
do in between, after any number of accepted connections that `nextIo_` can
count the loops have been given the same number of them, up to one for the
first loops of the turn.
-/

set_option autoImplicit false

namespace MiniRpc.ConnectionShare
open MiniRpc.StepMachine MiniRpc.TurnCounter MiniRpc.AcceptLoop

variable {L : Type}

def loopAt (loop : L) (ioLoops : List L) (k : ℕ) : L :=
  (ioLoops[place (2^64) ioLoops.length 0 k]?).getD loop

structure Taken (loop : L) (ioLoops : List L) (s : TcpServer L) : Prop where
  main : s.loop = loop
  others : s.ioLoops = ioLoops
  next : ioLoops ≠ [] → s.nextIo = UInt64.ofNat s.conns.length
  loops : s.conns.map Accepted.loop = (List.range s.conns.length).map (loopAt loop ioLoops)

theorem taken_accept {loop : L} {ioLoops : List L} {s : TcpServer L} (h : Taken loop ioLoops s) :
    Taken loop ioLoops s.accept.1 := by
  obtain ⟨hl,hio,hnext,hloops⟩ := h
  have hlen : s.accept.1.conns.length = s.conns.length+1 := List.length_append
  refine ⟨hl,hio,fun hne => ?_,?_⟩
  · rw [hlen,UInt64.ofNat_add,← hnext hne]
    simp only [TcpServer.accept,hio,if_neg hne]
    rfl
  · have hturn : s.nextLoop = loopAt loop ioLoops s.conns.length := by
      rw [TcpServer.nextLoop,loopAt,hl,hio]
      by_cases hne : ioLoops = []
      · simp [hne]
      · rw [hnext hne,place,Nat.zero_add,UInt64.toNat_ofNat']
    rw [hlen,List.range_succ,List.map_append,← hloops,TcpServer.accept]
    simp [hturn]

theorem taken_set {loop : L} {ioLoops : List L} {s : TcpServer L} (h : Taken loop ioLoops s)
    {k : ℕ} {c d : Accepted L} (hk : s.conns[k]? = some c) {t : TcpServer L}
    (hl : t.loop = s.loop) (hio : t.ioLoops = s.ioLoops) (hnext : t.nextIo = s.nextIo)
    (hconns : t.conns = s.conns.set k d) (hd : d.loop = c.loop) : Taken loop ioLoops t := by
  refine ⟨hl.trans h.main,hio.trans h.others,?_,?_⟩
  · rw [hnext,hconns,List.length_set]
    exact h.next
  · obtain ⟨hlt,rfl⟩ := List.getElem?_eq_some_iff.mp hk
    rw [hconns,List.length_set,← h.loops,List.map_set,hd,← List.map_set,List.set_getElem_self]

variable [DecidableEq L]

theorem act_taken {loop : L} {ioLoops : List L} {s : TcpServer L} (h : Taken loop ioLoops s)
    {r : TcpServer L × List Output} (hr : Act s r) : Taken loop ioLoops r.1 := by
  cases hr with
  | rests => exact h
  | accepts hfree => exact taken_accept h
  | runs k c ha hk hl => exact taken_set h hk rfl rfl rfl rfl rfl
  | posts k c ha hk hl => exact ⟨h.main,h.others,h.next,h.loops⟩
  | callsBack k c ha hk => exact taken_set h hk rfl rfl rfl rfl rfl
  | functor l k ks hf hbusy =>
    rw [TcpServer.establish]
    split
    · exact ⟨h.main,h.others,h.next,h.loops⟩
    · next c hk =>
      split
      · exact taken_set h hk rfl rfl rfl rfl rfl
      · exact ⟨h.main,h.others,h.next,h.loops⟩
  | moves k c i hk hserver huser hbusy => exact taken_set h hk rfl rfl rfl rfl rfl

theorem run_taken (name : String) (loop : L) (ioLoops : List L) (is : List (Input L)) :
    Taken loop ioLoops (tcpServer.run (new name loop ioLoops) is).1 :=
  run_invariant tcpServer (fun s _ => Taken loop ioLoops s)
    (fun s _ i h => act_taken h (step_act s i)) _ is ⟨rfl,rfl,fun _ => rfl,rfl⟩

/-- Up to `2^64` connections, where `nextIo_` wraps, the loop at place `a` has
been given its share of them. -/
theorem connections_shared_evenly (name : String) (loop : L) (ioLoops : List L)
    (hdistinct : ioLoops.Nodup) (is : List (Input L))
    (hlen : (tcpServer.run (new name loop ioLoops) is).1.conns.length ≤ 2^64) (a : ℕ) (l : L)
    (ha : ioLoops[a]? = some l) :
    (tcpServer.run (new name loop ioLoops) is).1.conns.countP (fun c => c.loop = l) =
      (tcpServer.run (new name loop ioLoops) is).1.conns.length/ioLoops.length+
        if a < (tcpServer.run (new name loop ioLoops) is).1.conns.length%ioLoops.length then 1
        else 0 := by
  have htaken := run_taken name loop ioLoops is
  generalize (tcpServer.run (new name loop ioLoops) is).1 = s at htaken hlen ⊢
  obtain ⟨hlt,hget⟩ := List.getElem?_eq_some_iff.mp ha
  calc s.conns.countP (fun c => c.loop = l)
      = (s.conns.map Accepted.loop).countP (· = l) := by rw [List.countP_map]; rfl
    _ = (List.range s.conns.length).countP (fun k => loopAt loop ioLoops k = l) := by
        rw [htaken.loops,List.countP_map]
        rfl
    _ = (List.range s.conns.length).countP (fun k => place (2^64) ioLoops.length 0 k = a) := by
        apply List.countP_congr
        intro k _
        have hk : place (2^64) ioLoops.length 0 k < ioLoops.length :=
          Nat.mod_lt _ (Nat.lt_of_le_of_lt (Nat.zero_le a) hlt)
        simp only [decide_eq_true_eq,loopAt,List.getElem?_eq_getElem hk,Option.getD_some]
        rw [← hget]
        exact hdistinct.getElem_inj_iff
    _ = _ := count_turns hlt hlen

theorem first_loop_has_two :
    (tcpServer.run (new "s" 0 [1,2]) [.accept,.handleNewConnection,.handleNewConnection,.accept,
      .handleNewConnection,.handleNewConnection,.accept]).1.conns.countP (fun c => c.loop = 1) =
      3/2+if 0 < 3%2 then 1 else 0 :=
  connections_shared_evenly "s" 0 [1,2] (by decide) [.accept,.handleNewConnection,
    .handleNewConnection,.accept,.handleNewConnection,.handleNewConnection,.accept]
    (by decide +kernel) 0 1 rfl

end MiniRpc.ConnectionShare
