import Rpld.NetlinkCore
import Rpld.SelfAddress

/-!
The daemon and the kernel. The requests of the daemon go over one socket, and each takes the
reply that waits there first. A receive that is interrupted leaves its reply behind, and every
later request is then answered with the reply to one before it. As long as none was left, the
answers are those to the requests, and a self address is one that the kernel has granted.
-/

namespace Rpld

open Mailbox Runs

section

variable {ρ : Type} {kernel : List Nlmsg → Nlmsg → ρ} {mnlCbRun : ρ → UInt32 → NlResult}

theorem nlTalk_sock (sock : Box Nlmsg ρ) (outcome : NlOutcome) (msg : Nlmsg) :
    (nlTalk kernel mnlCbRun sock outcome msg).1 = (sock.call kernel (outcome.call msg)).1 := by
  simp only [nlTalk]
  split <;> rfl

theorem nlTalk_lags {sock : Box Nlmsg ρ} {lag : Nat} (lags : sock.Lags kernel lag) (outcome : NlOutcome) (msg : Nlmsg) :
    (nlTalk kernel mnlCbRun sock outcome msg).1.Lags kernel (lag + if (outcome.call msg).leaves then 1 else 0) := by
  rw [nlTalk_sock]
  exact call_lags lags (outcome.call msg)

theorem nlTalk_sent (sock : Box Nlmsg ρ) (outcome : NlOutcome) (msg : Nlmsg) :
    (nlTalk kernel mnlCbRun sock outcome msg).1.sent = sock.sent ++ if outcome.sendto = .ok then [msg] else [] := by
  rw [nlTalk_sock, Box.call, NlOutcome.call]
  by_cases sent : outcome.sendto = .ok
  · simp only [sent, decide_true, if_true]
    split <;> rfl
  · simp [sent]

theorem nlTalk_answer {sock : Box Nlmsg ρ} {lag : Nat} (lags : sock.Lags kernel lag) {outcome : NlOutcome}
    (sent : outcome.sendto = .ok) (received : outcome.recvfrom = .ok) (msg : Nlmsg) :
    ∃ before request after, sock.sent ++ [msg] = before ++ request :: after ∧ after.length = lag ∧
      (nlTalk kernel mnlCbRun sock outcome msg).2 = mnlCbRun (kernel before request) msg.nlmsgSeq := by
  have sends : (outcome.call msg).sends = true := by simp [NlOutcome.call, sent]
  have takes : (outcome.call msg).takes = true := by simp [NlOutcome.call, received]
  obtain ⟨before, request, after, split, length, taken⟩ := call_takes lags sends takes
  refine ⟨before, request, after, split, length, ?_⟩
  simp only [nlTalk, sent, received]
  rw [taken]
  rfl

def converse (kernel : List Nlmsg → Nlmsg → ρ) (mnlCbRun : ρ → UInt32 → NlResult)
    (requests : List (NlOutcome × Nlmsg)) : Box Nlmsg ρ :=
  requests.foldl (fun sock request => (nlTalk kernel mnlCbRun sock request.1 request.2).1) Box.fresh

/-- How many replies were left in the socket by the requests they were for. -/
def unreceived (requests : List (NlOutcome × Nlmsg)) : Nat :=
  requests.countP fun request => request.1.sendto = .ok ∧ request.1.recvfrom ≠ .ok ∧ request.1.usedUp = false

theorem converse_lags (requests : List (NlOutcome × Nlmsg)) :
    (converse kernel mnlCbRun requests).Lags kernel (unreceived requests) := by
  have same : converse kernel mnlCbRun requests =
      Box.fresh.run kernel (requests.map fun request => request.1.call request.2) := by
    rw [converse, Box.run, List.foldl_map]
    congr 1
    funext sock request
    exact nlTalk_sock sock request.1 request.2
  have left : unreceived requests = left (requests.map fun request => request.1.call request.2) := by
    rw [unreceived, left, List.countP_map]
    congr 1
    funext request
    simp [Call.leaves, NlOutcome.call]
  rw [same, left]
  simpa using run_lags fresh_lags (requests.map fun request => request.1.call request.2)

/-- Whose answer a request gets. After any sequence of requests, of which some could not be sent
and the replies to some not be received, a request returns what is made of the reply to the one
so many before it as replies were left in the socket: its own only if none was. -/
theorem nl_answers_lag (kernel : List Nlmsg → Nlmsg → ρ) (mnlCbRun : ρ → UInt32 → NlResult)
    (requests : List (NlOutcome × Nlmsg)) (outcome : NlOutcome) (msg : Nlmsg) (sent : outcome.sendto = .ok)
    (received : outcome.recvfrom = .ok) :
    let sock := converse kernel mnlCbRun requests
    ∃ before request after, sock.sent ++ [msg] = before ++ request :: after ∧
      after.length = unreceived requests ∧
      (nlTalk kernel mnlCbRun sock outcome msg).2 = mnlCbRun (kernel before request) msg.nlmsgSeq :=
  nlTalk_answer (converse_lags requests) sent received msg

theorem nl_answers_lag_interrupted :
    let kernel := fun _ msg => msg.nlmsgType
    let mnlCbRun := fun type _ => if type = rtmGetlink then .error 19 else .ok
    let sock := converse kernel mnlCbRun [(⟨0, .ok, .error 4, false⟩, getlinkMsg 0 1)]
    let msg := newaddrMsg 0 1 .unspecified
    ∃ before request after, sock.sent ++ [msg] = before ++ request :: after ∧ after.length = 1 ∧
      (nlTalk kernel mnlCbRun sock ⟨0, .ok, .ok, false⟩ msg).2 = mnlCbRun (kernel before request) msg.nlmsgSeq :=
  nl_answers_lag _ _ [(⟨0, .ok, .error 4, false⟩, getlinkMsg 0 1)] ⟨0, .ok, .ok, false⟩
    (newaddrMsg 0 1 .unspecified) rfl rfl

/-! The daemon's own requests. -/

variable (kernel mnlCbRun) in
/-- The kernel was asked for the address, and its reply to that request says that it is there. -/
def Grants (sock : Box Nlmsg ρ) (ifindex : UInt32) (addr : In6Addr) : Prop :=
  ∃ before seq after, sock.sent = before ++ newaddrMsg seq ifindex addr :: after ∧
    (mnlCbRun (kernel before (newaddrMsg seq ifindex addr)) seq = .ok ∨
      mnlCbRun (kernel before (newaddrMsg seq ifindex addr)) seq = .error eexist)

theorem grants_mono {sock later : Box Nlmsg ρ} (grown : sock.sent <+: later.sent) {ifindex : UInt32} {addr : In6Addr}
    (grants : Grants kernel mnlCbRun sock ifindex addr) : Grants kernel mnlCbRun later ifindex addr := by
  obtain ⟨before, seq, after, sent, granted⟩ := grants
  obtain ⟨more, whole⟩ := grown
  refine ⟨before, seq, after ++ more, ?_, granted⟩
  rw [← whole, sent, List.append_assoc, List.cons_append]

/-- No reply is left behind, and a request that fails on the way does not look like one for an
address that is there already: `sendto` and `recvfrom` have no such error. -/
structure NlOutcome.InStep (outcome : NlOutcome) : Prop where
  usesUp : outcome.recvfrom = .ok ∨ outcome.usedUp
  unsent : outcome.sendto ≠ .error eexist
  unreceived : outcome.recvfrom ≠ .error eexist

variable (kernel) in
structure StaysInStep (sock later : Box Nlmsg ρ) : Prop where
  lags : later.Lags kernel 0
  grown : sock.sent <+: later.sent

section

variable {sock : Box Nlmsg ρ} (lags : sock.Lags kernel 0)
include lags

theorem nlTalk_staysInStep {outcome : NlOutcome} (inStep : outcome.InStep) (msg : Nlmsg) :
    StaysInStep kernel sock (nlTalk kernel mnlCbRun sock outcome msg).1 := by
  have stays : (outcome.call msg).leaves = false := by simp [Call.leaves, NlOutcome.call, inStep.usesUp]
  have later := @nlTalk_lags ρ kernel mnlCbRun sock 0 lags outcome msg
  rw [stays] at later
  refine ⟨later, ?_⟩
  rw [nlTalk_sent]
  exact List.prefix_append _ _

theorem nlAddAddr_grants {outcome : NlOutcome} (inStep : outcome.InStep) (ifindex : UInt32) (addr : In6Addr)
    (adds : (nlAddAddr kernel mnlCbRun sock outcome ifindex addr).2 = .ok ∨
      (nlAddAddr kernel mnlCbRun sock outcome ifindex addr).2 = .error eexist) :
    Grants kernel mnlCbRun (nlAddAddr kernel mnlCbRun sock outcome ifindex addr).1 ifindex addr := by
  cases sent : outcome.sendto with
  | error errno =>
      have other : errno ≠ eexist := fun same => inStep.unsent (by rw [sent, same])
      simp [nlAddAddr, nlTalk, sent, other] at adds
  | ok =>
      cases received : outcome.recvfrom with
      | error errno =>
          have other : errno ≠ eexist := fun same => inStep.unreceived (by rw [received, same])
          simp [nlAddAddr, nlTalk, sent, received, other] at adds
      | ok =>
          obtain ⟨before, request, after, split, length, answer⟩ :=
            @nlTalk_answer ρ kernel mnlCbRun sock 0 lags outcome sent received (newaddrMsg outcome.time ifindex addr)
          rw [List.length_eq_zero_iff.mp length] at split
          obtain ⟨rfl, own⟩ := List.append_inj' split rfl
          rw [List.singleton_inj] at own
          subst own
          refine ⟨sock.sent, outcome.time, [], ?_, ?_⟩
          · rw [nlAddAddr, nlTalk_sent, if_pos sent]
          · rw [nlAddAddr, answer] at adds
            exact adds

theorem talkOne_staysInStep {outcome : NlOutcome} (inStep : outcome.InStep) (effect : Effect) :
    StaysInStep kernel sock (talkOne kernel mnlCbRun sock outcome effect).1 := by
  cases effect with
  | nlAddAddr => exact nlTalk_staysInStep lags inStep _
  | nlAddRouteVia => exact nlTalk_staysInStep lags inStep _
  | nlAddRouteDefault => exact nlTalk_staysInStep lags inStep _
  | nlDelRouteVia => exact nlTalk_staysInStep lags inStep _
  | _ => exact ⟨lags, List.prefix_refl _⟩

end

variable {sock : Box Nlmsg ρ} {outcome : Nat → NlOutcome}

theorem talkAll_staysInStep (lags : sock.Lags kernel 0) (inStep : ∀ index, (outcome index).InStep)
    (effects : List Effect) : StaysInStep kernel sock (talkAll kernel mnlCbRun sock outcome effects).1 := by
  induction effects generalizing sock outcome with
  | nil => exact ⟨lags, List.prefix_refl _⟩
  | cons effect rest ih =>
      have first := @talkOne_staysInStep ρ kernel mnlCbRun sock lags (outcome 0) (inStep 0) effect
      have others := @ih _ (fun index => outcome (index + 1)) first.lags fun index => inStep (index + 1)
      exact ⟨others.lags, first.grown.trans others.grown⟩

theorem talkAll_grants (lags : sock.Lags kernel 0) (inStep : ∀ index, (outcome index).InStep)
    {effects : List Effect} {env : Env} (heeds : env.Heeds (talkAll kernel mnlCbRun sock outcome effects).2)
    (adds : env.AddsAddr) {ifindex : UInt32} {addr : In6Addr} (asked : .nlAddAddr ifindex addr ∈ effects) :
    Grants kernel mnlCbRun (talkAll kernel mnlCbRun sock outcome effects).1 ifindex addr := by
  induction effects generalizing sock outcome with
  | nil => simp at asked
  | cons effect rest ih =>
      have first := @talkOne_staysInStep ρ kernel mnlCbRun sock lags (outcome 0) (inStep 0) effect
      have later : ∀ index, (outcome (index + 1)).InStep := fun index => inStep (index + 1)
      have others := @talkAll_staysInStep ρ kernel mnlCbRun _ _ first.lags later rest
      rcases List.mem_cons.mp asked with rfl | elsewhere
      · have returned : env.addAddr = (nlAddAddr kernel mnlCbRun sock (outcome 0) ifindex addr).2 :=
          heeds (.nlAddAddr ifindex addr) _ (by simp [talkAll, talkOne])
        rw [Env.AddsAddr, returned] at adds
        exact grants_mono others.grown (nlAddAddr_grants lags (inStep 0) ifindex addr adds)
      · refine ih first.lags later ?_ elsewhere
        intro effect result member
        exact heeds effect result (List.mem_append_right _ member)

end

structure TalkingDaemon (ρ : Type) where
  daemon : Daemon
  sock : Box Nlmsg ρ

section

variable {ρ : Type} (kernel : List Nlmsg → Nlmsg → ρ) (mnlCbRun : ρ → UInt32 → NlResult)

/-- The requests of a step are made in their order; `turn` has what the system does for each. -/
def TalkingDaemon.step (state : TalkingDaemon ρ) (turn : Event × (Nat → NlOutcome)) : TalkingDaemon ρ :=
  ⟨state.daemon.step turn.1, (talkAll kernel mnlCbRun state.sock turn.2 (state.daemon.news turn.1)).1⟩

structure TalkingDaemon.InStep (state : TalkingDaemon ρ) (turn : Event × (Nat → NlOutcome)) : Prop where
  heeds : turn.1.env.Heeds (talkAll kernel mnlCbRun state.sock turn.2 (state.daemon.news turn.1)).2
  inStep : ∀ index, (turn.2 index).InStep

structure TalkingDaemon.Good (state : TalkingDaemon ρ) (added : List (UInt32 × In6Addr)) : Prop where
  addressed : (AddressedDaemon.mk state.daemon added).Good
  granted : ∀ ifindex addr, (ifindex, addr) ∈ added → Grants kernel mnlCbRun state.sock ifindex addr
  lags : state.sock.Lags kernel 0

variable {kernel mnlCbRun}

theorem TalkingDaemon.step_good {state : TalkingDaemon ρ} {added : List (UInt32 × In6Addr)}
    (good : state.Good kernel mnlCbRun added) {turn : Event × (Nat → NlOutcome)}
    (inStep : state.InStep kernel mnlCbRun turn) :
    (state.step kernel mnlCbRun turn).Good kernel mnlCbRun
      (added ++ addedAddrs turn.1.env (state.daemon.news turn.1)) := by
  have stays := @talkAll_staysInStep ρ kernel mnlCbRun state.sock turn.2 good.lags inStep.inStep
    (state.daemon.news turn.1)
  refine ⟨AddressedDaemon.step_good good.addressed turn.1, ?_, stays.lags⟩
  intro ifindex addr member
  rcases List.mem_append.mp member with before | new
  · exact grants_mono stays.grown (good.granted ifindex addr before)
  · rw [addedAddrs] at new
    split at new
    · rename_i adds
      obtain ⟨effect, made, asks⟩ := List.mem_filterMap.mp new
      cases effect with
      | nlAddAddr asked wanted =>
          rw [Effect.addedAddr, Option.some.injEq, Prod.mk.injEq] at asks
          obtain ⟨rfl, rfl⟩ := asks
          exact talkAll_grants good.lags inStep.inStep inStep.heeds adds made
      | _ => simp [Effect.addedAddr] at asks
    · simp at new

/-- Whom a self address is from. After whatever requests while it loaded, and in every run with
packets of arbitrary content in which no reply is left in the socket, the self address of a
dag that is no root is unset, or it was generated for the dag and the kernel, whatever else it
refused, has answered the very request for it with success or with its being there. -/
theorem run_self_granted {inetPton : List Char → Option In6Addr} {confs : List IfaceConf} {daemon : Daemon}
    (booted : Daemon.boot inetPton confs = .ok daemon) {requests : List (NlOutcome × Nlmsg)}
    (noneLeft : unreceived requests = 0) {turns : List (Event × (Nat → NlOutcome))}
    (inStep : AllSteps (TalkingDaemon.step kernel mnlCbRun) (TalkingDaemon.InStep kernel mnlCbRun)
      ⟨daemon, converse kernel mnlCbRun requests⟩ turns) :
    let state := turns.foldl (TalkingDaemon.step kernel mnlCbRun) ⟨daemon, converse kernel mnlCbRun requests⟩
    ∀ watcher dag, state.daemon.watched watcher = some dag → dag.myRank ≠ 1 → dag.self ≠ .unspecified →
      genStatelessAddr dag.dest dag.iface.llinfo = some dag.self ∧
        Grants kernel mnlCbRun state.sock dag.iface.ifindex dag.self := by
  have start : (TalkingDaemon.mk daemon (converse kernel mnlCbRun requests)).Good kernel mnlCbRun [] := by
    have lags := @converse_lags ρ kernel mnlCbRun requests
    rw [noneLeft] at lags
    exact ⟨Daemon.boot_addressed booted, by simp, lags⟩
  intro state watcher dag held notRoot specified
  obtain ⟨added, good⟩ : ∃ added, state.Good kernel mnlCbRun added := by
    refine @foldl_invariant _ _ _ _ (fun state => ∃ added, state.Good kernel mnlCbRun added) ?_ _ _ ⟨[], start⟩ inStep
    intro state turn meets ⟨added, good⟩
    exact ⟨_, TalkingDaemon.step_good good meets⟩
  rcases good.addressed.addressed watcher dag held notRoot with unset | ⟨generated, member⟩
  · exact absurd unset specified
  · exact ⟨generated, good.granted _ _ member⟩

end

def sampleTurns : List (Event × (Nat → NlOutcome)) :=
  [(.packet .granting foreignDioPacket, fun _ => ⟨0, .ok, .ok, false⟩)]

theorem run_self_granted_sampleTurns :
    ∃ daemon, Daemon.boot sampleInetPton [sampleConf "fd00::/64"] = .ok daemon ∧
      ∃ watcher dag, (daemon.run [.packet .granting foreignDioPacket]).watched watcher = some dag ∧
        Grants (fun _ _ => NlResult.ok) (fun reply _ => reply)
          (sampleTurns.foldl (TalkingDaemon.step (fun _ _ => NlResult.ok) (fun reply _ => reply))
            ⟨daemon, converse (fun _ _ => NlResult.ok) (fun reply _ => reply) []⟩).sock
          dag.iface.ifindex dag.self := by
  obtain ⟨daemon, booted⟩ := boot_sample
  have evaluated : ((Daemon.boot sampleInetPton [sampleConf "fd00::/64"]).toOption.bind fun daemon =>
      ((daemon.run [.packet .granting foreignDioPacket]).watched ⟨0, 1, linkLocal 9⟩).map fun dag =>
        (decide (dag.myRank = 1), decide (dag.self = .unspecified),
          (talkAll (fun _ _ => NlResult.ok) (fun reply _ => reply) Box.fresh (fun _ => ⟨0, .ok, .ok, false⟩)
            (daemon.news (.packet .granting foreignDioPacket))).2.all fun returned => returned.2 = .ok)) =
      some (false, false, true) := by decide
  rw [booted, Except.toOption, Option.bind_some, Option.map_eq_some_iff] at evaluated
  obtain ⟨dag, held, outcome⟩ := evaluated
  simp only [Prod.mk.injEq, decide_eq_false_iff_not, List.all_eq_true, decide_eq_true_eq] at outcome
  obtain ⟨notRoot, specified, granted⟩ := outcome
  have inStep : AllSteps (TalkingDaemon.step (fun _ _ => NlResult.ok) (fun reply _ => reply))
      (TalkingDaemon.InStep (fun _ _ => NlResult.ok) (fun reply _ => reply))
      ⟨daemon, converse (fun _ _ => NlResult.ok) (fun reply _ => reply) []⟩ sampleTurns := by
    refine ⟨⟨?_, fun _ => ⟨Or.inl rfl, by simp, by simp⟩⟩, trivial⟩
    intro effect result member
    have ok := granted (effect, result) member
    cases effect with
    | nlAddAddr => exact ok.symm
    | nlDelRouteVia => exact ok.symm
    | _ => trivial
  exact ⟨daemon, booted, _, dag, held, (run_self_granted booted rfl inStep _ dag held notRoot specified).2⟩

end Rpld
