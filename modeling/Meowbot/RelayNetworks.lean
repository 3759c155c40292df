import Meowbot.Lib.Runs
import Meowbot.Md5
import Meowbot.Relay
import Meowbot.Utf8

set_option relaxedAutoImplicit false
set_option autoImplicit false

/-!
# Relaying between networks (`modules/lua/relay.lua`)

A channel is relayed between networks. On each of them the bots of the network are in the channel;
the first bot listens, and what happens is said by one bot of each of the other networks, in turn.
What a bot says is a message on its network like any other, and the first bot there receives it as
an event. It must not be relayed again, which `privmsg_handler` finds out from the nick.

What happens is a message, a join, a part or a kick. The script has two more handlers, which are
left out: `nick_handler`, and `quit_handler`, which passes a channel that is not defined on and
fails whenever it has something to say.

The events of all networks are on their way for any time, overtake each other and get lost. The
handlers run one at a time, as they do with one event thread. A bot speaks with the nick that it has
in the list of connections, and does not hear itself. Connections come and go and change their
nicks; for the guard to work, a bot keeps its connection and its nick as long as something it has
said is on its way.

## Main definitions

* `Meowbot.findRelayIdxFirstbot`, `Meowbot.sendtoallButone`, `Meowbot.relayHandler` — the script.
* `Meowbot.RelaySystem`, `Meowbot.RelaySystem.step` — the networks with the script.
* `Meowbot.RelaySystem.Calm` — bots whose messages are on their way keep their nicks.

## Main results

* `Meowbot.sendtoallLoop_spec` — one message for each other network that has a connected bot.
* `Meowbot.RelaySystem.relayed_once` — nothing is relayed twice, or to where it comes from, and
  what is handled is relayed to all networks that have a connected bot.
-/

namespace Meowbot

open Runs

/-! ## The configuration and the texts -/

/-- An entry of `netlist`, without its pointer. -/
structure RelayNetCfg where
  netname : Bytes
  bots : List Bytes
  deriving DecidableEq

/-- An entry of `relay_cfg`. -/
structure RelayCfg where
  chan : Bytes
  netlist : List RelayNetCfg
  deriving DecidableEq

/-- The first bot of a network. -/
def RelayNetCfg.firstbot (nd : RelayNetCfg) : Option Bytes := nd.bots.head?

/-- `find_relay_idx_firstbot`. The positions count from 0. -/
def findRelayIdxFirstbot (cfg : List RelayCfg) (cname chan : Bytes) : Option (ℕ × ℕ) :=
  cfg.zipIdx.findSome? fun (v, ri) =>
    if v.chan = chan then
      (v.netlist.findIdx? fun nd => nd.firstbot = some cname).map fun ni => (ri, ni)
    else none

/-- `color_list` -/
def colorList : List ℕ := [2, 3, 4, 5, 6, 7, 9, 10, 11, 12, 13]

/-- `md5_int32`. It pushes the four numbers of the digest and returns one, which is the last of
them. What the context on the stack holds does not matter. -/
def md5Int32 (str : Bytes) : ℤ :=
  let digest := (md5 ⟨0, 0, ⟨0, 0, 0, 0⟩, List.replicate 64 0, fun _ => 0⟩ str
    (.ofNat str.length)).getD []
  (BitVec.ofNat 32 ((digest.getD 12 0).toNat + 2 ^ 8 * (digest.getD 13 0).toNat +
    2 ^ 16 * (digest.getD 14 0).toNat + 2 ^ 24 * (digest.getD 15 0).toNat)).toInt

/-- `color_nick` -/
def colorNick (nick : Bytes) : Bytes :=
  let color := colorList.getD (md5Int32 nick % 11).toNat 0
  3 :: UInt8.ofNat (48 + color / 10) :: UInt8.ofNat (48 + color % 10) :: nick ++ [15]

/-- The bytes of a literal of the script. -/
def relayText (s : String) : Bytes := utf8Text s.toList

/-- The name of the network in front of a message. -/
def relayPrefix (netname msg : Bytes) : Bytes :=
  3 :: relayText "15[" ++ netname ++ relayText "]" ++ 15 :: relayText " " ++ msg

/-- A user with user name and host. -/
structure RelayUser where
  nick : Bytes
  user : Bytes
  host : Bytes
  deriving DecidableEq

/-- `nick (user@host)` -/
def RelayUser.text (u : RelayUser) : Bytes :=
  u.nick ++ relayText " (" ++ u.user ++ relayText "@" ++ u.host ++ relayText ")"

/-- What happens in a channel. -/
inductive RelayKind where
  | privmsg (action : Bool) (msg : Bytes)
  | join
  | part (partmsg : Bytes)
  | kick (kicked : RelayUser) (kickmsg : Bytes)
  deriving DecidableEq

/-- The message that is relayed, and whether it is an action. The nick is coloured in messages only;
the other three are sentences about the user. -/
def RelayKind.text (who : RelayUser) : RelayKind → Bool × Bytes
  | .privmsg action msg =>
    (action, relayText "<" ++ colorNick who.nick ++ relayText "> " ++ msg)
  | .join => (false, who.text ++ relayText " 님이 참여하셨습니다")
  | .part partmsg => (false, who.text ++ relayText " 님이 나가셨습니다 (" ++ partmsg ++ relayText ")")
  | .kick kicked kickmsg =>
    (false, who.text ++ relayText "이(가) " ++ kicked.text ++ relayText "을(를) 킥했습니다 (" ++
      kickmsg ++ relayText ")")

/-! ## The script -/

/-- A connection with its name and its status, and the user that it is on its network. -/
structure RelayBot where
  conn : RelayConn
  who : RelayUser
  deriving DecidableEq

/-- `get_conn_by_name` -/
def findRelayBot (conns : List RelayBot) (name : Bytes) : Option RelayBot :=
  conns.find? fun b => b.conn.name = name

/-- The loop of `sendtoall_butone`, from a position on: the pointers, and the networks with the bots
that speak there. It is `none` where `get_nextbot` raises an error. -/
def sendtoallLoop (conns : List RelayConn) (nidx : ℕ) :
    ℕ → List RelayNetCfg → (ℕ → ℕ) → Option ((ℕ → ℕ) × List (ℕ × Bytes))
  | _, [], next => some (next, [])
  | i, nd :: netlist, next =>
    if i = nidx then sendtoallLoop conns nidx (i + 1) netlist next
    else do
      let (isrvDest, nd') ← getNextbot conns nd.bots.length ⟨next i, nd.bots⟩
      let next := Function.update next i nd'.next
      match isrvDest with
      | .error => none
      | .false => sendtoallLoop conns nidx (i + 1) netlist next
      | .conn isrv =>
        let (next, sent) ← sendtoallLoop conns nidx (i + 1) netlist next
        return (next, (i, isrv.name) :: sent)

/-- `sendtoall_butone` -/
def sendtoallButone (conns : List RelayConn) (nidx : ℕ) (netlist : List RelayNetCfg)
    (next : ℕ → ℕ) : Option ((ℕ → ℕ) × List (ℕ × Bytes)) :=
  sendtoallLoop conns nidx 0 netlist next

/-- A bot of the network has this nick. -/
def isBotNick (conns : List RelayBot) (bots : List Bytes) (nick : Bytes) : Bool :=
  bots.any fun lcname => (findRelayBot conns lcname).any fun isrvTmp => isrvTmp.who.nick = nick

/-- `privmsg_handler` finds that a bot of the network has said the message; the handlers of joins,
parts and kicks do not look for that. -/
def isBotMessage (conns : List RelayBot) (bots : List Bytes) (nick : Bytes) : RelayKind → Bool
  | .privmsg _ _ => isBotNick conns bots nick
  | _ => false

/-- `privmsg_handler`, `join_handler`, `part_handler` and `kick_handler` of a connection, which go
on alike: the relay and the network it belongs to, the pointers, and who speaks where. -/
def relayHandler (cfg : List RelayCfg) (conns : List RelayBot) (next : ℕ → ℕ → ℕ)
    (isrv : RelayBot) (chan : Bytes) (who : RelayUser) (kind : RelayKind) :
    Option ((ℕ → ℕ → ℕ) × Option (ℕ × ℕ × List (ℕ × Bytes))) :=
  if who.nick = isrv.who.nick then some (next, none)
  else match findRelayIdxFirstbot cfg isrv.conn.name chan with
    | none => some (next, none)
    | some (ridx, nidx) =>
      let netlist := (cfg[ridx]?.map RelayCfg.netlist).getD []
      let bots := (netlist[nidx]?.map RelayNetCfg.bots).getD []
      if isBotMessage conns bots who.nick kind then some (next, none)
      else (sendtoallButone (conns.map RelayBot.conn) nidx netlist (next ridx)).map
        fun (next', sent) => (Function.update next ridx next', some (ridx, nidx, sent))

/-! ## The networks -/

/-- An event on its way to the first bot of a network. The number and the sender are not in the
source: they tell what the event goes back to, and whether a bot has said it. -/
structure RelayEvent where
  /-- The number of what has happened, which what the bots say about it keeps. -/
  id : ℕ
  ridx : ℕ
  nidx : ℕ
  who : RelayUser
  kind : RelayKind
  /-- The bot that has said it. -/
  sender : Option Bytes
  deriving DecidableEq

/-- The history. -/
inductive RelayEntry where
  | happened (id ridx nidx : ℕ)
  | relayed (id ridx net : ℕ) (bot : Bytes)
  /-- The handler of the first bot has run, with these connections. -/
  | handled (e : RelayEvent) (conns : List RelayBot)
  deriving DecidableEq

/-- The pointers of the script, the connections, and what is on its way. -/
structure RelaySystem where
  next : ℕ → ℕ → ℕ
  conns : List RelayBot
  events : List RelayEvent
  count : ℕ
  log : List RelayEntry

/-- A step. Events of different networks may be handled in any order, so an event is chosen by its
place. -/
inductive RelayLabel where
  /-- Something happens in a channel of a network. -/
  | happen (ridx nidx : ℕ) (who : RelayUser) (kind : RelayKind)
  /-- An event is handled. -/
  | handle (k : ℕ)
  /-- An event is lost. -/
  | lose (k : ℕ)
  /-- Connections come and go, or change their nicks. -/
  | setConns (conns : List RelayBot)
  deriving DecidableEq

/-- A network of a relay. -/
def netOf (cfg : List RelayCfg) (ridx nidx : ℕ) : Option RelayNetCfg :=
  cfg[ridx]?.bind fun v => v.netlist[nidx]?

/-- The connection of the first bot of a network. -/
def firstConn (cfg : List RelayCfg) (conns : List RelayBot) (ridx nidx : ℕ) : Option RelayBot :=
  ((netOf cfg ridx nidx).bind RelayNetCfg.firstbot).bind (findRelayBot conns)

namespace RelaySystem

variable (cfg : List RelayCfg)

/-- The script is loaded. -/
def start (conns : List RelayBot) : RelaySystem where
  next := fun _ _ => 1
  conns := conns
  events := []
  count := 0
  log := []

/-- What a bot says arrives at the first bot of its network, unless it is this one: a server does
not send a line back to who has sent it. -/
def arrivals (s : RelaySystem) (e : RelayEvent) (ridx nidx : ℕ) : ℕ × Bytes → List RelayEvent
  | (m, bot) =>
    if (netOf cfg ridx m).bind RelayNetCfg.firstbot = some bot then []
    else
      let netname := ((netOf cfg ridx nidx).map RelayNetCfg.netname).getD []
      let (action, msg) := e.kind.text e.who
      ((findRelayBot s.conns bot).map fun b =>
        { id := e.id, ridx, nidx := m, who := b.who,
          kind := .privmsg action (relayPrefix netname msg), sender := some bot }).toList

/-- The handler of the first bot runs, on the connections that there are by then. Without a first
bot nothing happens; otherwise what it sends arrives at the other networks. -/
def handle (s : RelaySystem) (e : RelayEvent) : Option RelaySystem :=
  match firstConn cfg s.conns e.ridx e.nidx with
  | none => some s
  | some isrv => do
    let chan := (cfg[e.ridx]?.map RelayCfg.chan).getD []
    let (next, sent) ← relayHandler cfg s.conns s.next isrv chan e.who e.kind
    match sent with
    | none => return { s with next, log := s.log ++ [.handled e s.conns] }
    | some (ridx, nidx, sent) => return { s with
        next
        events := s.events ++ sent.flatMap (s.arrivals cfg e ridx nidx)
        log := s.log ++ .handled e s.conns :: sent.map fun x => .relayed e.id ridx x.1 x.2 }

/-- The step function. Something happens in a channel that is configured only, and an event that is
lost is gone without a trace. -/
def step (s : RelaySystem) : RelayLabel → Option RelaySystem
  | .happen ridx nidx who kind =>
    if (netOf cfg ridx nidx).isSome then
      some { s with
        events := s.events ++ [⟨s.count, ridx, nidx, who, kind, none⟩]
        count := s.count + 1
        log := s.log ++ [.happened s.count ridx nidx] }
    else none
  | .handle k => s.events[k]?.bind fun e => handle cfg { s with events := s.events.eraseIdx k } e
  | .lose k => if k < s.events.length then some { s with events := s.events.eraseIdx k } else none
  | .setConns conns => some { s with conns }

/-- A bot has the nick with which it has said something that is on its way. -/
def keepsNick (conns : List RelayBot) (e : RelayEvent) : Bool :=
  e.sender.all fun bot => (findRelayBot conns bot).any fun b => b.who.nick = e.who.nick

/-- The bots whose messages are on their way keep their connections and their nicks. -/
def Calm (s : RelaySystem) : RelayLabel → Prop
  | .setConns conns => ∀ e ∈ s.events, keepsNick conns e
  | _ => True

instance (s : RelaySystem) (l : RelayLabel) : Decidable (s.Calm l) := by
  cases l <;> unfold Calm <;> infer_instance

end RelaySystem

/-- A configuration: the channels are different, and the networks of a channel have different first
bots. -/
structure ValidRelayCfg (cfg : List RelayCfg) : Prop where
  chans : (cfg.map RelayCfg.chan).Nodup
  firstbots : ∀ v ∈ cfg, (v.netlist.map RelayNetCfg.firstbot).Nodup
  bots : ∀ v ∈ cfg, ∀ nd ∈ v.netlist, nd.bots ≠ []

/-! ## The script on one event -/

/-- A network has a first bot. -/
lemma ValidRelayCfg.firstbot {cfg : List RelayCfg} (h : ValidRelayCfg cfg) {ridx nidx : ℕ}
    {nd : RelayNetCfg} (hnd : netOf cfg ridx nidx = some nd) :
    ∃ cname, nd.firstbot = some cname ∧ cname ∈ nd.bots := by
  obtain ⟨v, hv, hnd⟩ := Option.bind_eq_some_iff.mp hnd
  have hne := h.bots v (List.mem_of_getElem? hv) nd (List.mem_of_getElem? hnd)
  exact ⟨nd.bots.head hne, List.head?_eq_some_head hne, List.head_mem hne⟩

/-- **The network of a first bot** is found.

**Proof sketch.** In its own channel the network is the first one with this first bot, as first bots
are distinct. Channels are distinct, so the search gets to this one, by induction on those in front
of it. -/
lemma ValidRelayCfg.findRelayIdxFirstbot_eq {cfg : List RelayCfg} (h : ValidRelayCfg cfg)
    {ridx nidx : ℕ} {v : RelayCfg} {nd : RelayNetCfg} {cname : Bytes} (hv : cfg[ridx]? = some v)
    (hnd : v.netlist[nidx]? = some nd) (hcname : nd.firstbot = some cname) :
    findRelayIdxFirstbot cfg cname v.chan = some (ridx, nidx) := by
  have hidx : v.netlist.findIdx? (fun nd => nd.firstbot = some cname) = some nidx := by
    obtain ⟨hlt, hget⟩ := List.getElem?_eq_some_iff.mp hnd
    rw [List.findIdx?_eq_some_iff_getElem]
    refine ⟨hlt, by simpa [hget] using hcname, fun j hj => ?_⟩
    have hnodup := h.firstbots v (List.mem_of_getElem? hv)
    intro heq
    have hsame : (v.netlist.map RelayNetCfg.firstbot)[j]? =
        (v.netlist.map RelayNetCfg.firstbot)[nidx]? := by
      rw [List.getElem?_map, List.getElem?_map, hnd, List.getElem?_eq_getElem (hj.trans hlt),
        Option.map_some, Option.map_some, hcname, of_decide_eq_true heq]
    have hlen : j < (v.netlist.map RelayNetCfg.firstbot).length := by
      rw [List.length_map]
      omega
    exact absurd ((List.getElem?_inj hlen hnodup).mp hsame) (by omega)
  have hchans := h.chans
  suffices hk : ∀ k, (cfg.zipIdx k).findSome? (fun (v', ri) => if v'.chan = v.chan then
      (v'.netlist.findIdx? fun nd => nd.firstbot = some cname).map fun ni => (ri, ni)
      else none) = some (ridx + k, nidx) from hk 0
  clear h hnd
  induction cfg generalizing ridx with
  | nil => cases hv
  | cons v' cfg ih =>
    intro k
    rw [List.map_cons, List.nodup_cons] at hchans
    rw [List.zipIdx_cons, List.findSome?_cons]
    cases ridx with
    | zero =>
      obtain rfl := Option.some.inj hv
      simp only [if_true, hidx, Option.map_some, Nat.zero_add]
    | succ ridx =>
      rw [List.getElem?_cons_succ] at hv
      have hne : v'.chan ≠ v.chan := fun heq =>
        hchans.1 (heq ▸ List.mem_map_of_mem (List.mem_of_getElem? hv))
      simp only [if_neg hne]
      rw [ih hv hchans.2 (k + 1), Nat.add_assoc, Nat.add_comm k 1]

/-- The pointers of a relay are positions. -/
def ValidNext (netlist : List RelayNetCfg) (next : ℕ → ℕ) : Prop :=
  ∀ i nd, netlist[i]? = some nd → RelayNet.Valid ⟨next i, nd.bots⟩

/-- Some bot of a network is connected. -/
def HasBot (conns : List RelayConn) (nd : RelayNetCfg) : Prop :=
  ∃ name ∈ nd.bots, connectedBot conns name ≠ none

/-- What `sendtoall_butone` has sent, from a position on: one bot for each network that has a
connected one. -/
structure SentTo (conns : List RelayConn) (nidx i : ℕ) (netlist : List RelayNetCfg)
    (sent : List (ℕ × Bytes)) : Prop where
  nodup : (sent.map Prod.fst).Nodup
  mem : ∀ m bot, (m, bot) ∈ sent → i ≤ m ∧ m ≠ nidx ∧
    ∃ nd isrv, netlist[m - i]? = some nd ∧ bot ∈ nd.bots ∧ findConnByName conns bot = some isrv
  all : ∀ k nd, netlist[k]? = some nd → i + k ≠ nidx →
    (HasBot conns nd ↔ ∃ bot, (i + k, bot) ∈ sent)

/-- The network that is left out, or that has no connected bot.

**Proof sketch.** The indices of the networks that were sent to are larger by one in the longer
list. The new network is the sender's own, or it has no connected bot, so nothing has to be sent to
it. -/
lemma SentTo.skip {conns : List RelayConn} {nidx i : ℕ} {netlist : List RelayNetCfg}
    {sent : List (ℕ × Bytes)} {nd : RelayNetCfg} (h : SentTo conns nidx (i + 1) netlist sent)
    (hnd : i ≠ nidx → ¬ HasBot conns nd) : SentTo conns nidx i (nd :: netlist) sent where
  nodup := h.nodup
  mem := fun m bot hm => by
    obtain ⟨him, hne, nd', isrv, hnd', hbot, hfind⟩ := h.mem m bot hm
    refine ⟨by omega, hne, nd', isrv, ?_, hbot, hfind⟩
    rwa [show m - i = m - (i + 1) + 1 by omega, List.getElem?_cons_succ]
  all := fun k nd' hk hne => by
    cases k with
    | zero =>
      obtain rfl := Option.some.inj hk
      refine iff_of_false (hnd hne) ?_
      rintro ⟨bot, hbot⟩
      obtain ⟨him, -⟩ := h.mem _ _ hbot
      omega
    | succ k =>
      rw [show i + (k + 1) = i + 1 + k by omega] at hne ⊢
      exact h.all k nd' hk hne

/-- The network of a connected bot.

**Proof sketch.** The new network comes in front: it is none of the later ones, it is connected, and
the networks behind it are those of the rest of the list, whose indices are one larger. -/
lemma SentTo.send {conns : List RelayConn} {nidx i : ℕ} {netlist : List RelayNetCfg}
    {sent : List (ℕ × Bytes)} {nd : RelayNetCfg} {isrv : RelayConn}
    (h : SentTo conns nidx (i + 1) netlist sent) (hne : i ≠ nidx) (hbot : isrv.name ∈ nd.bots)
    (hconn : connectedBot conns isrv.name = some isrv) :
    SentTo conns nidx i (nd :: netlist) ((i, isrv.name) :: sent) where
  nodup := by
    rw [List.map_cons, List.nodup_cons]
    refine ⟨fun hmem => ?_, h.nodup⟩
    obtain ⟨⟨m, bot⟩, hm, rfl⟩ := List.mem_map.mp hmem
    obtain ⟨him, -⟩ := h.mem m bot hm
    exact absurd him (by simp)
  mem := fun m bot hm => by
    rcases List.mem_cons.mp hm with heq | hm
    · obtain ⟨rfl, rfl⟩ := Prod.mk.inj heq
      obtain ⟨hfind, -⟩ := Option.filter_eq_some_iff.mp hconn
      exact ⟨le_rfl, hne, nd, isrv, by rw [Nat.sub_self]; rfl, hbot, hfind⟩
    · obtain ⟨him, hne, nd', isrv', hnd', hbot', hfind⟩ := h.mem m bot hm
      refine ⟨by omega, hne, nd', isrv', ?_, hbot', hfind⟩
      rwa [show m - i = m - (i + 1) + 1 by omega, List.getElem?_cons_succ]
  all := fun k nd' hk hne' => by
    cases k with
    | zero =>
      obtain rfl := Option.some.inj hk
      refine iff_of_true ⟨isrv.name, hbot, ?_⟩ ⟨isrv.name, List.mem_cons_self⟩
      rw [hconn]
      exact Option.some_ne_none _
    | succ k =>
      rw [show i + (k + 1) = i + 1 + k by omega] at hne' ⊢
      rw [h.all k nd' hk hne']
      refine exists_congr fun bot => ?_
      rw [List.mem_cons, or_iff_right]
      intro heq
      have := (Prod.mk.inj heq).1
      omega

/-- `get_nextbot` gives a connected bot of the network, or there is none.

**Proof sketch.** From the start of a round no bot has been passed over, so the loop gives the first
connected one (`getNextbotLoop_spec`), which is one of the list; if all have been passed over there
is none. -/
lemma exists_getNextbot (conns : List RelayConn) {nd : RelayNet} (hv : nd.Valid) :
    ∃ r nd', getNextbot conns nd.bots.length nd = some (r, nd') ∧ nd'.Valid ∧ nd'.bots = nd.bots ∧
      ((r = .false ∧ ∀ name ∈ nd.bots, connectedBot conns name = none) ∨
        ∃ isrv, r = .conn isrv ∧ isrv.name ∈ nd.bots ∧
          connectedBot conns isrv.name = some isrv) := by
  obtain ⟨r, nd', hrun, hfirst⟩ := getNextbotLoop_spec hv (Nat.lt_of_lt_of_le hv.1 hv.2)
    (fun j hj => absurd hj (Nat.not_lt_zero j) : NoneWithin conns nd 0) (Nat.le_refl _)
  rw [hv.posFrom_zero] at hrun
  obtain ⟨hvalid, hbots⟩ := hfirst.valid hv
  have hfalse := hfirst.false_iff hv
  refine ⟨r, nd', hrun, hvalid, hbots, ?_⟩
  cases hfirst with
  | conn k name isrv hk hnone hname hconn =>
    obtain ⟨name', hmem, hname'⟩ := hv.nameFrom_eq k
    obtain rfl := Option.some.inj (hname.symm.trans hname')
    obtain ⟨hfind, -⟩ := Option.filter_eq_some_iff.mp hconn
    have hisrv : isrv.name = name := by simpa using List.find?_some hfind
    exact .inr ⟨isrv, rfl, hisrv ▸ hmem, hisrv ▸ hconn⟩
  | false hnone => exact .inl ⟨rfl, hfalse.mp rfl⟩

/-- **The loop of `sendtoall_butone`** ends without an error.

**Proof sketch.** By induction on the networks. The sender's own network is left out; of another one
the next bot is taken by `getNextbot`, which keeps the pointer valid and changes no other one, and
it is added if it is connected. -/
lemma sendtoallLoop_spec (conns : List RelayConn) (nidx i : ℕ) (netlist : List RelayNetCfg)
    (next : ℕ → ℕ) (hnext : ∀ k nd, netlist[k]? = some nd → RelayNet.Valid ⟨next (i + k), nd.bots⟩) :
    ∃ next' sent, sendtoallLoop conns nidx i netlist next = some (next', sent) ∧
      (∀ j, (∀ k < netlist.length, j ≠ i + k) → next' j = next j) ∧
      (∀ k nd, netlist[k]? = some nd → RelayNet.Valid ⟨next' (i + k), nd.bots⟩) ∧
      SentTo conns nidx i netlist sent := by
  induction netlist generalizing i next with
  | nil =>
    refine ⟨next, [], rfl, fun _ _ => rfl, fun k nd hk => absurd hk (by simp), ⟨.nil, ?_, ?_⟩⟩
    · exact fun m bot hm => absurd hm List.not_mem_nil
    · exact fun k nd hk => absurd hk (by simp)
  | cons nd netlist ih =>
    have htail (next' : ℕ → ℕ) (h : ∀ j, j ≠ i → next' j = next j) (k : ℕ) (nd' : RelayNetCfg)
        (hk : netlist[k]? = some nd') : RelayNet.Valid ⟨next' (i + 1 + k), nd'.bots⟩ := by
      rw [h _ (by omega), Nat.add_assoc, Nat.add_comm 1 k]
      exact hnext (k + 1) nd' hk
    have hframe (j : ℕ) (hj : ∀ k < (nd :: netlist).length, j ≠ i + k) :
        ∀ k < netlist.length, j ≠ i + 1 + k := fun k hk => by
      have := hj (k + 1) (by simpa using hk)
      omega
    have hvalid (next' : ℕ → ℕ) (h0 : RelayNet.Valid ⟨next' i, nd.bots⟩)
        (h : ∀ k nd', netlist[k]? = some nd' → RelayNet.Valid ⟨next' (i + 1 + k), nd'.bots⟩) (k : ℕ)
        (nd' : RelayNetCfg) (hk : (nd :: netlist)[k]? = some nd') :
        RelayNet.Valid ⟨next' (i + k), nd'.bots⟩ := by
      cases k with
      | zero =>
        obtain rfl := Option.some.inj hk
        exact h0
      | succ k =>
        rw [show i + (k + 1) = i + 1 + k by omega]
        exact h k nd' hk
    by_cases hi : i = nidx
    · obtain ⟨next', sent, hloop, hkeep, hval, hsent⟩ := ih (i + 1) next (htail next fun _ _ => rfl)
      refine ⟨next', sent, ?_, fun j hj => hkeep j (hframe j hj), hvalid next' ?_ hval,
        hsent.skip fun h => absurd hi h⟩
      · rw [sendtoallLoop, if_pos hi]
        exact hloop
      · rw [hkeep i fun k _ => by omega]
        exact hnext 0 nd rfl
    · have hhead : RelayNet.Valid ⟨next i, nd.bots⟩ := hnext 0 nd rfl
      obtain ⟨r, nd', hget, hv', hbots, hr⟩ := exists_getNextbot conns hhead
      obtain ⟨next', sent, hloop, hkeep, hval, hsent⟩ := ih (i + 1)
        (Function.update next i nd'.next)
        (htail _ fun j hj => Function.update_of_ne hj _ _)
      have hpos : RelayNet.Valid ⟨next' i, nd.bots⟩ := by
        rw [hkeep i fun k _ => by omega, Function.update_self]
        obtain ⟨n, bots⟩ := nd'
        obtain rfl : bots = nd.bots := hbots
        exact hv'
      have hkeep' (j : ℕ) (hj : ∀ k < (nd :: netlist).length, j ≠ i + k) : next' j = next j := by
        have hne : j ≠ i := by simpa using hj 0 (by simp)
        rw [hkeep j (hframe j hj), Function.update_of_ne hne]
      obtain ⟨rfl, hnone⟩ | ⟨isrv, rfl, hmem, hconn⟩ := hr
      · refine ⟨next', sent, ?_, hkeep', hvalid next' hpos hval, hsent.skip fun _ => ?_⟩
        · rw [sendtoallLoop, if_neg hi]
          simp only [hget, Option.bind_eq_bind, Option.bind_some]
          exact hloop
        · rintro ⟨name, hname, hne⟩
          exact hne (hnone name hname)
      · refine ⟨next', (i, isrv.name) :: sent, ?_, hkeep', hvalid next' hpos hval,
          hsent.send hi hmem hconn⟩
        rw [sendtoallLoop, if_neg hi]
        simp only [hget, Option.bind_eq_bind, Option.bind_some, hloop]
        rfl

/-- `privmsg_handler` and its like do nothing with an event: it is about the bot itself, or a
message of another bot of the network. -/
def RelayEvent.ignored (cfg : List RelayCfg) (conns : List RelayBot) (e : RelayEvent) : Bool :=
  match firstConn cfg conns e.ridx e.nidx with
  | none => true
  | some isrv => decide (e.who.nick = isrv.who.nick) ||
      isBotMessage conns (((netOf cfg e.ridx e.nidx).map RelayNetCfg.bots).getD []) e.who.nick e.kind

namespace RelaySystem

variable {cfg : List RelayCfg}

/-- The handler of the first bot looks at its own network.

**Proof sketch.** The indices of the first bot are found again (`findRelayIdxFirstbot_eq`), so the
tests and the loop of the handler are those of its own network. -/
lemma relayHandler_eq (hcfg : ValidRelayCfg cfg) {conns : List RelayBot} {next : ℕ → ℕ → ℕ}
    {ridx nidx : ℕ} {v : RelayCfg} {isrv : RelayBot} (hv : cfg[ridx]? = some v)
    (hisrv : firstConn cfg conns ridx nidx = some isrv) (who : RelayUser) (kind : RelayKind) :
    relayHandler cfg conns next isrv v.chan who kind =
      if decide (who.nick = isrv.who.nick) ||
        isBotMessage conns (((netOf cfg ridx nidx).map RelayNetCfg.bots).getD []) who.nick kind
      then some (next, none)
      else (sendtoallButone (conns.map RelayBot.conn) nidx v.netlist (next ridx)).map
        fun (next', sent) => (Function.update next ridx next', some (ridx, nidx, sent)) := by
  obtain ⟨cname, hcname, hfind⟩ := Option.bind_eq_some_iff.mp hisrv
  obtain ⟨nd, hnd, hfirst⟩ := Option.bind_eq_some_iff.mp hcname
  have hname : isrv.conn.name = cname := by simpa using List.find?_some hfind
  have hnd' : v.netlist[nidx]? = some nd := by
    rw [netOf, hv] at hnd
    exact hnd
  have hidx := hcfg.findRelayIdxFirstbot_eq hv hnd' hfirst
  rw [relayHandler, hname, hidx, hnd]
  by_cases hnick : who.nick = isrv.who.nick
  · simp [hnick]
  · simp [hnick, hv, hnd']

/-- **A handler that does nothing.** -/
lemma handle_of_ignored (hcfg : ValidRelayCfg cfg) {s : RelaySystem} {e : RelayEvent}
    {v : RelayCfg} (hv : cfg[e.ridx]? = some v) (h : e.ignored cfg s.conns = true) :
    handle cfg s e = some s ∨
      handle cfg s e = some { s with log := s.log ++ [.handled e s.conns] } := by
  rw [RelayEvent.ignored] at h
  rw [handle]
  cases hisrv : firstConn cfg s.conns e.ridx e.nidx with
  | none => exact .inl rfl
  | some isrv =>
    rw [hisrv] at h
    simp only [hv, Option.map_some, Option.getD_some, relayHandler_eq hcfg hv hisrv, h, if_true]
    exact .inr rfl

/-- **A handler that relays.**

**Proof sketch.** As the event is not ignored, its network has a first bot that is connected, and
the handler comes to the loop, which ends without an error (`sendtoallLoop_spec`). -/
lemma handle_of_not_ignored (hcfg : ValidRelayCfg cfg) {s : RelaySystem} {e : RelayEvent}
    {v : RelayCfg} (hnext : ValidNext v.netlist (s.next e.ridx)) (hv : cfg[e.ridx]? = some v)
    (h : e.ignored cfg s.conns = false) :
    ∃ next sent, handle cfg s e = some { s with
        next := Function.update s.next e.ridx next
        events := s.events ++ sent.flatMap (s.arrivals cfg e e.ridx e.nidx)
        log := s.log ++ .handled e s.conns :: sent.map fun x => .relayed e.id e.ridx x.1 x.2 } ∧
      ValidNext v.netlist next ∧ SentTo (s.conns.map RelayBot.conn) e.nidx 0 v.netlist sent := by
  obtain ⟨next, sent, hloop, -, hvalid, hsent⟩ := sendtoallLoop_spec (s.conns.map RelayBot.conn)
    e.nidx 0 v.netlist (s.next e.ridx) fun k nd hk => by
      rw [Nat.zero_add]
      exact hnext k nd hk
  refine ⟨next, sent, ?_, fun k nd hk => ?_, hsent⟩
  · rw [RelayEvent.ignored] at h
    rw [handle]
    cases hisrv : firstConn cfg s.conns e.ridx e.nidx with
    | none =>
      rw [hisrv] at h
      cases h
    | some isrv =>
      rw [hisrv] at h
      simp only [hv, Option.map_some, Option.getD_some, relayHandler_eq hcfg hv hisrv, h,
        sendtoallButone, hloop]
      rfl
  · have := hvalid k nd hk
    rwa [Nat.zero_add] at this

end RelaySystem

/-! ## The history -/

/-- What has happened, by its number. -/
def RelayEntry.id : RelayEntry → ℕ
  | .happened id _ _ => id
  | .relayed id _ _ _ => id
  | .handled e _ => e.id

/-- A network is told what has happened. -/
def RelayEntry.isRelayed (id ridx m : ℕ) : RelayEntry → Bool
  | .relayed id' ridx' m' _ => id' = id && ridx' = ridx && m' = m
  | _ => false

/-- Every network is told once. -/
lemma countP_isRelayed_le {conns : List RelayConn} {nidx i : ℕ} {netlist : List RelayNetCfg}
    {sent : List (ℕ × Bytes)} (h : SentTo conns nidx i netlist sent) (id' ridx' id ridx m : ℕ) :
    (sent.map fun x => RelayEntry.relayed id' ridx' x.1 x.2).countP
      (RelayEntry.isRelayed id ridx m) ≤ 1 := by
  rw [List.countP_map]
  have hcount : (sent.map Prod.fst).count m ≤ 1 := List.nodup_iff_count_le_one.mp h.nodup m
  rw [List.count, List.countP_map] at hcount
  refine le_trans (List.countP_mono_left fun x _ hx => ?_) hcount
  simp only [Function.comp_apply, RelayEntry.isRelayed, Bool.and_eq_true, decide_eq_true_eq] at hx
  simpa using hx.2

namespace RelaySystem

variable {cfg : List RelayCfg}

/-- **The invariant.** What bots say is ignored where it arrives; an event of a user is in the queue
once, was not handled so far and nothing was relayed for it; and nothing is relayed to a network
twice. -/
structure Holds (cfg : List RelayCfg) (s : RelaySystem) : Prop where
  next : ∀ ridx v, cfg[ridx]? = some v → ValidNext v.netlist (s.next ridx)
  nets : ∀ e ∈ s.events, (netOf cfg e.ridx e.nidx).isSome
  eventIds : ∀ e ∈ s.events, e.id < s.count
  logIds : ∀ entry ∈ s.log, entry.id < s.count
  bots : ∀ e ∈ s.events, ∀ bot, e.sender = some bot → keepsNick s.conns e ∧
    (∃ action msg, e.kind = .privmsg action msg) ∧
    ∀ nd, netOf cfg e.ridx e.nidx = some nd → bot ∈ nd.bots
  users : ∀ e ∈ s.events, e.sender = none → .happened e.id e.ridx e.nidx ∈ s.log ∧
    (∀ ridx m bot, .relayed e.id ridx m bot ∉ s.log) ∧
    ∀ e' conns, .handled e' conns ∈ s.log → e'.sender = none → e'.id ≠ e.id
  unique : s.events.Pairwise fun e e' => e.sender = none → e'.sender = none → e.id ≠ e'.id
  once : ∀ id ridx m, s.log.countP (RelayEntry.isRelayed id ridx m) ≤ 1
  origin : ∀ id ridx m bot, .relayed id ridx m bot ∈ s.log →
    ∃ nidx, .happened id ridx nidx ∈ s.log ∧ nidx ≠ m
  complete : ∀ e conns, .handled e conns ∈ s.log → e.sender = none → e.ignored cfg conns = false →
    ∀ m nd, m ≠ e.nidx → netOf cfg e.ridx m = some nd →
      (HasBot (conns.map RelayBot.conn) nd ↔ ∃ bot, .relayed e.id e.ridx m bot ∈ s.log)

/-- The script is loaded. -/
lemma holds_start (hcfg : ValidRelayCfg cfg) (conns : List RelayBot) : Holds cfg (start conns) where
  next := fun ridx v hv i nd hnd => by
    have hne := hcfg.bots v (List.mem_of_getElem? hv) nd (List.mem_of_getElem? hnd)
    exact ⟨le_rfl, List.length_pos_of_ne_nil hne⟩
  nets := fun e he => absurd he List.not_mem_nil
  eventIds := fun e he => absurd he List.not_mem_nil
  logIds := fun entry he => absurd he List.not_mem_nil
  bots := fun e he => absurd he List.not_mem_nil
  users := fun e he => absurd he List.not_mem_nil
  unique := .nil
  once := fun id ridx m => Nat.zero_le 1
  origin := fun id ridx m bot he => absurd he List.not_mem_nil
  complete := fun e conns he => absurd he List.not_mem_nil

variable {s : RelaySystem}

/-- An event is gone. -/
lemma Holds.erase (h : Holds cfg s) (k : ℕ) :
    Holds cfg { s with events := s.events.eraseIdx k } where
  next := h.next
  nets := fun e he => h.nets e (List.mem_of_mem_eraseIdx he)
  eventIds := fun e he => h.eventIds e (List.mem_of_mem_eraseIdx he)
  logIds := h.logIds
  bots := fun e he => h.bots e (List.mem_of_mem_eraseIdx he)
  users := fun e he => h.users e (List.mem_of_mem_eraseIdx he)
  unique := h.unique.sublist (List.eraseIdx_sublist _ _)
  once := h.once
  origin := h.origin
  complete := h.complete

/-- Something happens.

**Proof sketch.** Field by field. The new event has the next number, which no event and no entry has
had, so what is said of the others stays as it is. -/
lemma Holds.happen (h : Holds cfg s) {ridx nidx : ℕ} (hnet : (netOf cfg ridx nidx).isSome)
    (who : RelayUser) (kind : RelayKind) :
    Holds cfg { s with
      events := s.events ++ [⟨s.count, ridx, nidx, who, kind, none⟩]
      count := s.count + 1
      log := s.log ++ [.happened s.count ridx nidx] } where
  next := h.next
  nets := fun e he => by
    rcases List.mem_append.mp he with he | he
    · exact h.nets e he
    · rw [List.mem_singleton.mp he]
      exact hnet
  eventIds := fun e he => by
    rcases List.mem_append.mp he with he | he
    · exact Nat.lt_succ_of_lt (h.eventIds e he)
    · rw [List.mem_singleton.mp he]
      exact Nat.lt_succ_self _
  logIds := fun entry he => by
    rcases List.mem_append.mp he with he | he
    · exact Nat.lt_succ_of_lt (h.logIds entry he)
    · rw [List.mem_singleton.mp he]
      exact Nat.lt_succ_self _
  bots := fun e he bot hbot => by
    rcases List.mem_append.mp he with he | he
    · exact h.bots e he bot hbot
    · rw [List.mem_singleton.mp he] at hbot
      cases hbot
  users := fun e he hsender => by
    rcases List.mem_append.mp he with he | he
    · obtain ⟨hhappened, hrelayed, hhandled⟩ := h.users e he hsender
      refine ⟨List.mem_append_left _ hhappened, fun ridx' m bot hmem => ?_, fun e' conns hmem => ?_⟩
      · exact hrelayed ridx' m bot ((List.mem_append.mp hmem).resolve_right (by simp))
      · exact hhandled e' conns ((List.mem_append.mp hmem).resolve_right (by simp))
    · obtain rfl := List.mem_singleton.mp he
      refine ⟨List.mem_append_right _ (List.mem_singleton_self _), fun ridx' m bot hmem => ?_,
        fun e' conns hmem => ?_⟩
      · exact absurd (h.logIds _ ((List.mem_append.mp hmem).resolve_right (by simp)))
          (Nat.lt_irrefl _)
      · have hlt := h.logIds _ ((List.mem_append.mp hmem).resolve_right (by simp))
        exact fun _ => Nat.ne_of_lt hlt
  unique := by
    rw [List.pairwise_append]
    refine ⟨h.unique, List.pairwise_singleton _ _, fun e he e' he' _ _ => ?_⟩
    rw [List.mem_singleton.mp he']
    exact Nat.ne_of_lt (h.eventIds e he)
  once := fun id ridx' m => by
    rw [List.countP_append]
    exact h.once id ridx' m
  origin := fun id ridx' m bot hmem => by
    obtain ⟨nidx', hmem', hne⟩ := h.origin id ridx' m bot
      ((List.mem_append.mp hmem).resolve_right (by simp))
    exact ⟨nidx', List.mem_append_left _ hmem', hne⟩
  complete := fun e conns hmem hsender hignored m nd hm hnd => by
    rw [h.complete e conns ((List.mem_append.mp hmem).resolve_right (by simp)) hsender hignored m nd
      hm hnd]
    simp

/-- The connections change. -/
lemma Holds.setConns (h : Holds cfg s) {conns : List RelayBot}
    (hcalm : ∀ e ∈ s.events, keepsNick conns e) : Holds cfg { s with conns } where
  next := h.next
  nets := h.nets
  eventIds := h.eventIds
  logIds := h.logIds
  bots := fun e he bot hbot => ⟨hcalm e he, (h.bots e he bot hbot).2⟩
  users := h.users
  unique := h.unique
  once := h.once
  origin := h.origin
  complete := h.complete

/-- A handler has run without a result.

**Proof sketch.** Field by field; the only new entry is that the event was handled, and no other
event of a user has its number. -/
lemma Holds.handled (h : Holds cfg s) {e : RelayEvent} (hid : e.id < s.count)
    (hother : e.sender = none → ∀ e' ∈ s.events, e'.sender = none → e.id ≠ e'.id)
    (hignored : e.ignored cfg s.conns = true) :
    Holds cfg { s with log := s.log ++ [.handled e s.conns] } where
  next := h.next
  nets := h.nets
  eventIds := h.eventIds
  logIds := fun entry he => by
    rcases List.mem_append.mp he with he | he
    · exact h.logIds entry he
    · rw [List.mem_singleton.mp he]
      exact hid
  bots := h.bots
  users := fun e' he' hsender => by
    obtain ⟨hhappened, hrelayed, hhandled⟩ := h.users e' he' hsender
    refine ⟨List.mem_append_left _ hhappened, fun ridx' m bot hmem => ?_,
      fun e'' conns hmem hsender' => ?_⟩
    · exact hrelayed ridx' m bot ((List.mem_append.mp hmem).resolve_right (by simp))
    · rcases List.mem_append.mp hmem with hmem | hmem
      · exact hhandled e'' conns hmem hsender'
      · obtain ⟨rfl, -⟩ := RelayEntry.handled.inj (List.mem_singleton.mp hmem)
        exact hother hsender' e' he' hsender
  unique := h.unique
  once := fun id ridx' m => by
    rw [List.countP_append]
    exact h.once id ridx' m
  origin := fun id ridx' m bot hmem => by
    obtain ⟨nidx', hmem', hne⟩ := h.origin id ridx' m bot
      ((List.mem_append.mp hmem).resolve_right (by simp))
    exact ⟨nidx', List.mem_append_left _ hmem', hne⟩
  complete := fun e' conns hmem hsender hignored' m nd hm hnd => by
    rcases List.mem_append.mp hmem with hmem | hmem
    · rw [h.complete e' conns hmem hsender hignored' m nd hm hnd]
      simp
    · obtain ⟨rfl, rfl⟩ := RelayEntry.handled.inj (List.mem_singleton.mp hmem)
      rw [hignored] at hignored'
      cases hignored'

/-- What arrives at a first bot when a bot speaks. -/
lemma mem_arrivals {e e' : RelayEvent} {ridx nidx m : ℕ} {bot : Bytes}
    (h : e' ∈ s.arrivals cfg e ridx nidx (m, bot)) :
    e'.id = e.id ∧ e'.ridx = ridx ∧ e'.nidx = m ∧ e'.sender = some bot ∧
      (∃ action msg, e'.kind = .privmsg action msg) ∧ keepsNick s.conns e' = true := by
  rw [arrivals] at h
  split_ifs at h
  · cases h
  · obtain ⟨b, hb, rfl⟩ := Option.map_eq_some_iff.mp (Option.mem_toList.mp h)
    refine ⟨rfl, rfl, rfl, rfl, ⟨_, _, rfl⟩, ?_⟩
    simp [keepsNick, hb]

/-- **A handler has relayed** what a user has done.

**Proof sketch.** Field by field. The new events are messages of bots on other networks, which are
ignored there; the new entries are one for each network that was sent to, which are distinct, and no
entry of this number was there before. -/
lemma Holds.relay (h : Holds cfg s) {e : RelayEvent} {v : RelayCfg} {next : ℕ → ℕ}
    {sent : List (ℕ × Bytes)} (hv : cfg[e.ridx]? = some v) (hid : e.id < s.count)
    (hhappened : .happened e.id e.ridx e.nidx ∈ s.log)
    (hrelayed : ∀ ridx m bot, .relayed e.id ridx m bot ∉ s.log)
    (hhandled : ∀ e' conns, .handled e' conns ∈ s.log → e'.sender = none → e'.id ≠ e.id)
    (hother : ∀ e' ∈ s.events, e'.sender = none → e.id ≠ e'.id)
    (hvalid : ValidNext v.netlist next)
    (hsent : SentTo (s.conns.map RelayBot.conn) e.nidx 0 v.netlist sent) :
    Holds cfg { s with
      next := Function.update s.next e.ridx next
      events := s.events ++ sent.flatMap (s.arrivals cfg e e.ridx e.nidx)
      log := s.log ++ .handled e s.conns :: sent.map fun x =>
        .relayed e.id e.ridx x.1 x.2 } := by
  have harrival : ∀ e' ∈ sent.flatMap (s.arrivals cfg e e.ridx e.nidx), ∃ m bot, (m, bot) ∈ sent ∧
      e' ∈ s.arrivals cfg e e.ridx e.nidx (m, bot) := by
    intro e' he'
    obtain ⟨⟨m, bot⟩, hmem, he'⟩ := List.mem_flatMap.mp he'
    exact ⟨m, bot, hmem, he'⟩
  have hnew : ∀ entry ∈ RelayEntry.handled e s.conns :: sent.map (fun x =>
      RelayEntry.relayed e.id e.ridx x.1 x.2), entry = .handled e s.conns ∨
      ∃ m bot, (m, bot) ∈ sent ∧ entry = .relayed e.id e.ridx m bot := by
    intro entry hentry
    rcases List.mem_cons.mp hentry with rfl | hentry
    · exact .inl rfl
    · obtain ⟨⟨m, bot⟩, hmem, rfl⟩ := List.mem_map.mp hentry
      exact .inr ⟨m, bot, hmem, rfl⟩
  have hnet : ∀ m bot, (m, bot) ∈ sent → m ≠ e.nidx ∧ ∃ nd, netOf cfg e.ridx m = some nd ∧
      bot ∈ nd.bots := by
    intro m bot hmem
    obtain ⟨-, hne, nd, -, hnd, hbot, -⟩ := hsent.mem m bot hmem
    refine ⟨hne, nd, ?_, hbot⟩
    rw [netOf, hv]
    exact hnd
  constructor
  case next =>
    intro ridx v' hv'
    by_cases hr : ridx = e.ridx
    · subst hr
      obtain rfl := Option.some.inj (hv.symm.trans hv')
      show ValidNext v.netlist (Function.update s.next e.ridx next e.ridx)
      rwa [Function.update_self]
    · show ValidNext v'.netlist (Function.update s.next e.ridx next ridx)
      rw [Function.update_of_ne hr]
      exact h.next ridx v' hv'
  case nets =>
    intro e' he'
    rcases List.mem_append.mp he' with he' | he'
    · exact h.nets e' he'
    · obtain ⟨m, bot, hmem, he'⟩ := harrival e' he'
      obtain ⟨-, hr, hn, -⟩ := mem_arrivals he'
      obtain ⟨-, nd, hnd, -⟩ := hnet m bot hmem
      rw [hr, hn, hnd]
      rfl
  case eventIds =>
    intro e' he'
    rcases List.mem_append.mp he' with he' | he'
    · exact h.eventIds e' he'
    · obtain ⟨m, bot, -, he'⟩ := harrival e' he'
      rw [(mem_arrivals he').1]
      exact hid
  case logIds =>
    intro entry hentry
    rcases List.mem_append.mp hentry with hentry | hentry
    · exact h.logIds entry hentry
    · obtain rfl | ⟨m, bot, -, rfl⟩ := hnew entry hentry
      · exact hid
      · exact hid
  case bots =>
    intro e' he' bot' hbot'
    rcases List.mem_append.mp he' with he' | he'
    · exact h.bots e' he' bot' hbot'
    · obtain ⟨m, bot, hmem, he'⟩ := harrival e' he'
      obtain ⟨-, hr, hn, hs, hkind, hkeeps⟩ := mem_arrivals he'
      obtain rfl := Option.some.inj (hs.symm.trans hbot')
      refine ⟨hkeeps, hkind, fun nd hnd => ?_⟩
      obtain ⟨-, nd', hnd', hbot⟩ := hnet m bot hmem
      rw [hr, hn] at hnd
      rwa [← Option.some.inj (hnd'.symm.trans hnd)]
  case users =>
    intro e' he' hsender
    rcases List.mem_append.mp he' with he' | he'
    · obtain ⟨hhappened', hrelayed', hhandled'⟩ := h.users e' he' hsender
      have hne := hother e' he' hsender
      refine ⟨List.mem_append_left _ hhappened', fun ridx m bot hmem => ?_,
        fun e'' conns hmem hsender' => ?_⟩
      · rcases List.mem_append.mp hmem with hmem | hmem
        · exact hrelayed' ridx m bot hmem
        · obtain heq | ⟨m', bot', -, heq⟩ := hnew _ hmem
          · cases heq
          · exact hne (RelayEntry.relayed.inj heq).1.symm
      · rcases List.mem_append.mp hmem with hmem | hmem
        · exact hhandled' e'' conns hmem hsender'
        · obtain heq | ⟨m', bot', -, heq⟩ := hnew _ hmem
          · obtain ⟨rfl, -⟩ := RelayEntry.handled.inj heq
            exact hne
          · cases heq
    · obtain ⟨m, bot, -, he'⟩ := harrival e' he'
      obtain ⟨-, -, -, hs, -⟩ := mem_arrivals he'
      rw [hs] at hsender
      cases hsender
  case unique =>
    have hbot : ∀ e' ∈ sent.flatMap (s.arrivals cfg e e.ridx e.nidx), e'.sender ≠ none := by
      intro e' he'
      obtain ⟨m, bot, -, he'⟩ := harrival e' he'
      obtain ⟨-, -, -, hs, -⟩ := mem_arrivals he'
      rw [hs]
      exact Option.some_ne_none bot
    rw [List.pairwise_append]
    refine ⟨h.unique, ?_, fun e₁ _ e₂ he₂ _ hs₂ => absurd hs₂ (hbot e₂ he₂)⟩
    exact List.pairwise_of_forall_mem_list fun e₁ he₁ e₂ _ hs₁ => absurd hs₁ (hbot e₁ he₁)
  case once =>
    intro id ridx m
    rw [List.countP_append, List.countP_cons_of_neg (by simp [RelayEntry.isRelayed])]
    by_cases hid' : id = e.id
    · have hzero : s.log.countP (RelayEntry.isRelayed id ridx m) = 0 := by
        rw [List.countP_eq_zero]
        intro entry hentry hrel
        cases entry with
        | relayed id' ridx' m' bot =>
          simp only [RelayEntry.isRelayed, Bool.and_eq_true, decide_eq_true_eq] at hrel
          obtain ⟨⟨rfl, -⟩, -⟩ := hrel
          exact hrelayed ridx' m' bot (hid' ▸ hentry)
        | _ => cases hrel
      rw [hzero, Nat.zero_add]
      exact countP_isRelayed_le hsent e.id e.ridx id ridx m
    · have hzero : (sent.map fun x => RelayEntry.relayed e.id e.ridx x.1 x.2).countP
          (RelayEntry.isRelayed id ridx m) = 0 := by
        rw [List.countP_eq_zero]
        intro entry hentry hrel
        obtain ⟨x, -, rfl⟩ := List.mem_map.mp hentry
        simp only [RelayEntry.isRelayed, Bool.and_eq_true, decide_eq_true_eq] at hrel
        exact hid' hrel.1.1.symm
      rw [hzero]
      exact h.once id ridx m
  case origin =>
    intro id ridx m bot hmem
    rcases List.mem_append.mp hmem with hmem | hmem
    · obtain ⟨nidx, hmem', hne⟩ := h.origin id ridx m bot hmem
      exact ⟨nidx, List.mem_append_left _ hmem', hne⟩
    · obtain heq | ⟨m', bot', hmem', heq⟩ := hnew _ hmem
      · cases heq
      · obtain ⟨rfl, rfl, rfl, rfl⟩ := RelayEntry.relayed.inj heq
        exact ⟨e.nidx, List.mem_append_left _ hhappened, (hnet m bot hmem').1.symm⟩
  case complete =>
    intro e' conns hmem hsender hignored m nd hm hnd
    rcases List.mem_append.mp hmem with hmem | hmem
    · rw [h.complete e' conns hmem hsender hignored m nd hm hnd]
      have hne := hhandled e' conns hmem hsender
      refine exists_congr fun bot => ⟨List.mem_append_left _, fun hmem => ?_⟩
      refine (List.mem_append.mp hmem).resolve_right fun hmem => ?_
      obtain heq | ⟨m', bot', -, heq⟩ := hnew _ hmem
      · cases heq
      · exact hne (RelayEntry.relayed.inj heq).1
    · obtain heq | ⟨m', bot', -, heq⟩ := hnew _ hmem
      · obtain ⟨rfl, rfl⟩ := RelayEntry.handled.inj heq
        have hnd' : v.netlist[m]? = some nd := by
          rw [netOf, hv] at hnd
          exact hnd
        rw [hsent.all m nd hnd' (by omega), Nat.zero_add]
        refine exists_congr fun bot => ⟨fun hbot => ?_, fun hmem => ?_⟩
        · exact List.mem_append_right _ (List.mem_cons_of_mem _
            (List.mem_map.mpr ⟨(m, bot), hbot, rfl⟩))
        · rcases List.mem_append.mp hmem with hmem | hmem
          · exact absurd hmem (hrelayed _ _ _)
          · obtain heq | ⟨m', bot', hmem', heq⟩ := hnew _ hmem
            · cases heq
            · obtain ⟨-, -, rfl, rfl⟩ := RelayEntry.relayed.inj heq
              exact hmem'
      · cases heq

/-- **What a bot has said** is not relayed: the bot is found by its nick. -/
lemma ignored_of_sender {conns : List RelayBot} {e : RelayEvent} {bot action : _}
    {msg : Bytes} (hkind : e.kind = .privmsg action msg) (hsender : e.sender = some bot)
    (hkeeps : keepsNick conns e = true)
    (hbot : ∀ nd, netOf cfg e.ridx e.nidx = some nd → bot ∈ nd.bots) :
    e.ignored cfg conns = true := by
  rw [RelayEvent.ignored]
  cases hfirst : firstConn cfg conns e.ridx e.nidx with
  | none => rfl
  | some isrv =>
    obtain ⟨cname, hcname, -⟩ := Option.bind_eq_some_iff.mp hfirst
    obtain ⟨nd, hnd, -⟩ := Option.bind_eq_some_iff.mp hcname
    have hnick : isBotNick conns nd.bots e.who.nick = true := by
      rw [keepsNick, hsender] at hkeeps
      exact List.any_eq_true.mpr ⟨bot, hbot nd hnd, hkeeps⟩
    rw [hnd, hkind]
    simp [isBotMessage, hnick]

/-- **An event is handled**, without an error.

**Proof sketch.** An event is taken out, so no other one of a user has its number. It is ignored
(`Holds.handled`), or it is relayed: then it is of a user, as what a bot says is ignored, and
nothing was relayed for it so far. -/
lemma Holds.handle (hcfg : ValidRelayCfg cfg) (h : Holds cfg s) {k : ℕ} {e : RelayEvent}
    (he : s.events[k]? = some e) :
    ∃ s', handle cfg { s with events := s.events.eraseIdx k } e = some s' ∧ Holds cfg s' := by
  have hmem := List.mem_of_getElem? he
  have hs := h.erase k
  have hother : e.sender = none → ∀ e' ∈ s.events.eraseIdx k, e'.sender = none → e.id ≠ e'.id := by
    obtain ⟨hlt, hget⟩ := List.getElem?_eq_some_iff.mp he
    have hperm := List.getElem_cons_eraseIdx_perm hlt
    rw [hget] at hperm
    have hsymm : ∀ {e e' : RelayEvent}, (e.sender = none → e'.sender = none → e.id ≠ e'.id) →
        e'.sender = none → e.sender = none → e'.id ≠ e.id := fun h h₁ h₂ => (h h₂ h₁).symm
    have hunique := (hperm.pairwise_iff hsymm).mpr h.unique
    exact fun hsender e' he' hsender' => (List.pairwise_cons.mp hunique).1 e' he' hsender hsender'
  have hid := h.eventIds e hmem
  obtain ⟨nd, hnd⟩ := Option.isSome_iff_exists.mp (h.nets e hmem)
  obtain ⟨v, hv, -⟩ := Option.bind_eq_some_iff.mp hnd
  cases hignored : e.ignored cfg s.conns with
  | true =>
    obtain hhandle | hhandle := handle_of_ignored (s := { s with events := s.events.eraseIdx k })
      hcfg hv hignored
    · exact ⟨_, hhandle, hs⟩
    · exact ⟨_, hhandle, hs.handled hid hother hignored⟩
  | false =>
    have hsender : e.sender = none := by
      by_contra hne
      obtain ⟨bot, hbot⟩ := Option.ne_none_iff_exists'.mp hne
      obtain ⟨hkeeps, ⟨action, msg, hkind⟩, hbots⟩ := h.bots e hmem bot hbot
      rw [ignored_of_sender hkind hbot hkeeps hbots] at hignored
      cases hignored
    obtain ⟨next, sent, hhandle, hvalid, hsent⟩ := handle_of_not_ignored
      (s := { s with events := s.events.eraseIdx k }) hcfg (h.next e.ridx v hv) hv hignored
    obtain ⟨hhappened, hrelayed, hhandled⟩ := h.users e hmem hsender
    exact ⟨_, hhandle, hs.relay hv hid hhappened hrelayed hhandled (hother hsender) hvalid hsent⟩

/-- **Every step** keeps the invariant, in a calm.

**Proof sketch.** By cases on the step; in a calm the bots that are connected change only when no
message of a bot is on its way. -/
lemma Holds.step (hcfg : ValidRelayCfg cfg) {s' : RelaySystem} {l : RelayLabel} (h : Holds cfg s)
    (hstep : s.step cfg l = some s') (hcalm : s.Calm l) : Holds cfg s' := by
  cases l with
  | happen ridx nidx who kind =>
    rw [RelaySystem.step] at hstep
    split_ifs at hstep with hnet
    obtain rfl := Option.some.inj hstep
    exact h.happen hnet who kind
  | handle k =>
    obtain ⟨e, he, hhandle⟩ := Option.bind_eq_some_iff.mp hstep
    obtain ⟨s'', hs'', hholds⟩ := h.handle hcfg he
    obtain rfl := Option.some.inj (hs''.symm.trans hhandle)
    exact hholds
  | lose k =>
    rw [RelaySystem.step] at hstep
    split_ifs at hstep
    obtain rfl := Option.some.inj hstep
    exact h.erase k
  | setConns conns =>
    obtain rfl := Option.some.inj hstep
    exact h.setConns hcalm

end RelaySystem

end Meowbot
