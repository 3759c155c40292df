import Meowbot.Irc
import Mathlib.Tactic.Common

set_option relaxedAutoImplicit false
set_option autoImplicit false

/-!
# Bots of a relayed network in turn (`modules/lua/relay.lua`)

A network that is relayed has several bots, whose connections have names. `get_nextbot` looks for
one that is connected, from the position `next` on, which counts from 1, and leaves `next` behind
the position that it has looked at last.

## Main definitions

* `Meowbot.RelayNet` — an entry of `netlist`; `Meowbot.RelayNet.Valid` — its `next` is a position.
* `Meowbot.getNextbotLoop`, `Meowbot.getNextbot` — `get_nextbot`.
* `Meowbot.RelayNet.nameFrom` — the name at a cyclic distance from the pointer.

## Main results

* `Meowbot.getNextbotLoop_spec` — the loop behind any number of positions without a connected bot.
* `Meowbot.getNextbot_roundRobin` — the first connected bot in cyclic order, or none.
-/

namespace Meowbot

/-! ## The loop -/

/-- A connection of the bot, with its name and its status. -/
structure RelayConn where
  name : Bytes
  status : IrcStatus
  deriving DecidableEq

/-- `ircbot::find_conn_by_name`. -/
def findConnByName (conns : List RelayConn) (name : Bytes) : Option RelayConn :=
  conns.find? fun isrv => isrv.name = name

/-- An entry of `netlist`. -/
structure RelayNet where
  next : ℕ
  bots : List Bytes
  deriving DecidableEq

/-- `nd.bots[i]`. Lua counts from 1. -/
def RelayNet.botAt (nd : RelayNet) (i : ℕ) : Option Bytes :=
  if i = 0 then none else nd.bots[i - 1]?

/-- What `get_nextbot` returns: a connection, or `false`. `error` is the one that `get_conn_by_name`
raises when its argument is `nil`. -/
inductive NextBot where
  | conn (isrvDest : RelayConn)
  | false
  | error
  deriving DecidableEq

/-- The loop of `get_nextbot`, with the pointer at its start. It is `none` without fuel. A bot that
is not connected is passed over, and the loop gives up when it is back at its start. -/
def getNextbotLoop (conns : List RelayConn) (next1 : ℕ) :
    ℕ → RelayNet → Option (NextBot × RelayNet)
  | 0, _ => none
  | fuel + 1, nd =>
    match nd.botAt nd.next with
    | none => some (.error, nd)
    | some name =>
      let isrvDest := findConnByName conns name
      let nd' :=
        if nd.next + 1 > nd.bots.length then { nd with next := 1 }
        else { nd with next := nd.next + 1 }
      match isrvDest.filter fun isrv => isrv.status = .connected with
      | some isrv => some (.conn isrv, nd')
      | none =>
        if nd'.next = next1 then some (.false, nd') else getNextbotLoop conns next1 fuel nd'

/-- `get_nextbot`. -/
def getNextbot (conns : List RelayConn) (fuel : ℕ) (nd : RelayNet) : Option (NextBot × RelayNet) :=
  getNextbotLoop conns nd.next fuel nd

/-! ## Positions in cyclic order -/

namespace RelayNet

/-- The pointer is a position of the list, which is then not empty. -/
def Valid (nd : RelayNet) : Prop := 1 ≤ nd.next ∧ nd.next ≤ nd.bots.length

/-- The position at a cyclic distance behind the pointer. -/
def posFrom (nd : RelayNet) (k : ℕ) : ℕ := (nd.next - 1 + k) % nd.bots.length + 1

/-- The name at a cyclic distance behind the pointer. -/
def nameFrom (nd : RelayNet) (k : ℕ) : Option Bytes := nd.botAt (nd.posFrom k)

variable {nd : RelayNet}

/-- There is a name at each distance. -/
lemma Valid.nameFrom_eq (hv : nd.Valid) (k : ℕ) :
    ∃ name ∈ nd.bots, nd.nameFrom k = some name := by
  obtain ⟨h1, hn⟩ := hv
  have hlt : (nd.next - 1 + k) % nd.bots.length < nd.bots.length := Nat.mod_lt _ (by omega)
  refine ⟨nd.bots[(nd.next - 1 + k) % nd.bots.length], List.getElem_mem hlt, ?_⟩
  rw [nameFrom, botAt, posFrom, if_neg (by omega), Nat.add_sub_cancel]
  exact List.getElem?_eq_getElem hlt

/-- The pointer is at distance 0. -/
lemma Valid.posFrom_zero (hv : nd.Valid) : nd.posFrom 0 = nd.next := by
  obtain ⟨h1, hn⟩ := hv
  rw [posFrom, Nat.add_zero, Nat.mod_eq_of_lt (by omega)]
  omega

/-- The next position is at the next distance. -/
lemma Valid.posFrom_succ (hv : nd.Valid) (k : ℕ) :
    nd.posFrom (k + 1) =
      if nd.posFrom k + 1 > nd.bots.length then 1 else nd.posFrom k + 1 := by
  obtain ⟨h1, hn⟩ := hv
  have hm : nd.posFrom (k + 1) = ((nd.next - 1 + k) % nd.bots.length + 1) % nd.bots.length + 1 := by
    rw [posFrom, ← Nat.add_assoc, Nat.add_mod, Nat.add_mod_mod]
  rw [hm, posFrom]
  have hlt : (nd.next - 1 + k) % nd.bots.length < nd.bots.length := Nat.mod_lt _ (by omega)
  split_ifs with hle
  · rw [show (nd.next - 1 + k) % nd.bots.length + 1 = nd.bots.length by omega, Nat.mod_self]
  · rw [Nat.mod_eq_of_lt (by omega)]

/-- The pointer comes back behind all positions, and not earlier. -/
lemma Valid.posFrom_eq_next_iff (hv : nd.Valid) {k : ℕ} (hk : k < nd.bots.length) :
    nd.posFrom (k + 1) = nd.next ↔ k + 1 = nd.bots.length := by
  obtain ⟨h1, hn⟩ := hv
  rw [posFrom]
  constructor
  · intro h
    by_contra hne
    rcases Nat.lt_or_ge (nd.next - 1 + (k + 1)) nd.bots.length with hlt | hge
    · rw [Nat.mod_eq_of_lt hlt] at h
      omega
    · rw [Nat.mod_eq_sub_mod hge, Nat.mod_eq_of_lt (by omega)] at h
      omega
  · intro h
    rw [h, Nat.add_mod_right, Nat.mod_eq_of_lt (by omega)]
    omega

/-- Every name of the list is at a distance below its length. -/
lemma Valid.exists_nameFrom (hv : nd.Valid) {name : Bytes} (hmem : name ∈ nd.bots) :
    ∃ k < nd.bots.length, nd.nameFrom k = some name := by
  obtain ⟨h1, hn⟩ := hv
  obtain ⟨i, hi, rfl⟩ := List.getElem_of_mem hmem
  -- the distance from the pointer to the position `i`, around the end of the list if need be
  obtain ⟨k, hk, hmod⟩ : ∃ k < nd.bots.length, (nd.next - 1 + k) % nd.bots.length = i := by
    rcases Nat.lt_or_ge i (nd.next - 1) with hlt | hge
    · refine ⟨i + nd.bots.length - (nd.next - 1), by omega, ?_⟩
      rw [show nd.next - 1 + (i + nd.bots.length - (nd.next - 1)) = i + nd.bots.length by omega,
        Nat.add_mod_right, Nat.mod_eq_of_lt hi]
    · refine ⟨i - (nd.next - 1), by omega, ?_⟩
      rw [show nd.next - 1 + (i - (nd.next - 1)) = i by omega, Nat.mod_eq_of_lt hi]
  refine ⟨k, hk, ?_⟩
  rw [nameFrom, botAt, posFrom, if_neg (by omega), Nat.add_sub_cancel, hmod]
  exact List.getElem?_eq_getElem hi

end RelayNet

/-! ## The first connected bot -/

/-- The connection of a name, if it is connected. -/
def connectedBot (conns : List RelayConn) (name : Bytes) : Option RelayConn :=
  (findConnByName conns name).filter fun isrv => isrv.status = .connected

/-- No bot within a distance from the pointer is connected. -/
def NoneWithin (conns : List RelayConn) (nd : RelayNet) (k : ℕ) : Prop :=
  ∀ j < k, ∀ name ∈ nd.nameFrom j, connectedBot conns name = none

/-- What a call gives, and the entry after it: the connection of the first connected bot at or
cyclically behind the pointer, which is moved behind it, or `false` if there is none. -/
inductive FirstConnected (conns : List RelayConn) (nd : RelayNet) : NextBot → RelayNet → Prop
  | conn (k : ℕ) (name : Bytes) (isrv : RelayConn) (hk : k < nd.bots.length)
      (hnone : NoneWithin conns nd k) (hname : nd.nameFrom k = some name)
      (hconn : connectedBot conns name = some isrv) :
      FirstConnected conns nd (.conn isrv) { nd with next := nd.posFrom (k + 1) }
  | false (hnone : NoneWithin conns nd nd.bots.length) : FirstConnected conns nd .false nd

variable {conns : List RelayConn} {nd : RelayNet}

/-- **The loop behind some positions without a connected bot** finds the first connected one.

**Proof sketch.** By induction on the fuel. Each round looks at the bot at the position and moves
the pointer on; if the bot is not connected, one more position is known to be without one, and once
all are the answer is that there is none. -/
lemma getNextbotLoop_spec (hv : nd.Valid) {k : ℕ} (hk : k < nd.bots.length)
    (hnone : NoneWithin conns nd k) {fuel : ℕ} (hfuel : nd.bots.length - k ≤ fuel) :
    ∃ r nd', getNextbotLoop conns nd.next fuel { nd with next := nd.posFrom k } = some (r, nd') ∧
      FirstConnected conns nd r nd' := by
  induction fuel generalizing k with
  | zero => omega
  | succ fuel ih =>
    obtain ⟨name, -, hname⟩ := hv.nameFrom_eq k
    have hat : ({ nd with next := nd.posFrom k } : RelayNet).botAt (nd.posFrom k) = some name :=
      hname
    have hmove : (if nd.posFrom k + 1 > nd.bots.length then { nd with next := 1 }
        else { nd with next := nd.posFrom k + 1 } : RelayNet) =
        { nd with next := nd.posFrom (k + 1) } := by
      rw [hv.posFrom_succ]
      split_ifs <;> rfl
    have hfilter : (findConnByName conns name).filter (fun isrv => isrv.status = .connected) =
        connectedBot conns name := rfl
    simp only [getNextbotLoop, hat, hmove, hfilter]
    cases hconn : connectedBot conns name with
    | some isrv => exact ⟨_, _, rfl, .conn k name isrv hk hnone hname hconn⟩
    | none =>
      have hnone' : NoneWithin conns nd (k + 1) := by
        intro j hj name' hname'
        rcases Nat.lt_succ_iff_lt_or_eq.mp hj with hlt | rfl
        · exact hnone j hlt name' hname'
        · rw [hname] at hname'
          rwa [← Option.some.inj hname']
      rcases Nat.lt_or_ge (k + 1) nd.bots.length with hlt | hge
      · have hne : nd.posFrom (k + 1) ≠ nd.next := fun h =>
          absurd ((hv.posFrom_eq_next_iff hk).mp h) (by omega)
        simp only [if_neg hne]
        exact ih hlt hnone' (by omega)
      · have hlast : k + 1 = nd.bots.length := by omega
        have hback := (hv.posFrom_eq_next_iff hk).mpr hlast
        refine ⟨.false, nd, ?_, .false (hlast ▸ hnone')⟩
        simp only [hback, if_true]

/-- More fuel changes nothing.

**Proof sketch.** By induction on the fuel: a round that ends the loop ends it with more fuel too,
and one that goes on is followed by the same rounds. -/
lemma getNextbotLoop_mono {next1 : ℕ} {fuel : ℕ} {x : NextBot × RelayNet} :
    ∀ {nd : RelayNet} (k : ℕ), getNextbotLoop conns next1 fuel nd = some x →
      getNextbotLoop conns next1 (fuel + k) nd = some x := by
  induction fuel with
  | zero => exact fun k h => absurd h (by simp [getNextbotLoop])
  | succ fuel ih =>
    intro nd k h
    rw [Nat.add_right_comm]
    simp only [getNextbotLoop] at h ⊢
    split at h
    · exact h
    · split at h
      · exact h
      · split_ifs at h ⊢ with hback hback
        · exact h
        · exact ih k h
        · exact h
        · exact ih k h

/-- The pointer of a valid entry stays valid. -/
lemma FirstConnected.valid (hv : nd.Valid) {r : NextBot} {nd' : RelayNet}
    (h : FirstConnected conns nd r nd') : nd'.Valid ∧ nd'.bots = nd.bots := by
  cases h with
  | conn k name isrv hk hnone hname hconn =>
    have hlt := Nat.mod_lt (nd.next - 1 + (k + 1)) (Nat.zero_lt_of_lt hk)
    exact ⟨⟨Nat.le_add_left _ _, hlt⟩, rfl⟩
  | false hnone => exact ⟨hv, rfl⟩

/-- There is none exactly when no bot of the list is connected. -/
lemma FirstConnected.false_iff (hv : nd.Valid) {r : NextBot} {nd' : RelayNet}
    (h : FirstConnected conns nd r nd') :
    r = .false ↔ ∀ name ∈ nd.bots, connectedBot conns name = none := by
  cases h with
  | conn k name isrv hk hnone hname hconn =>
    refine iff_of_false (fun h => NextBot.noConfusion h) fun hall => ?_
    obtain ⟨name', hmem, hname'⟩ := hv.nameFrom_eq k
    obtain rfl : name = name' := Option.some.inj (hname.symm.trans hname')
    rw [hall name hmem] at hconn
    exact absurd hconn (by simp)
  | false hnone =>
    refine iff_of_true rfl fun name hmem => ?_
    obtain ⟨k, hk, hname⟩ := hv.exists_nameFrom hmem
    exact hnone k hk name hname

/-- **Bots in turn.** For every list of bots, every valid pointer and every pattern of connections,
`get_nextbot` ends, with the connection of the first connected bot at or cyclically behind the
pointer, which then is at the position behind it, or with `false` exactly when no bot of the list
is connected. -/
theorem getNextbot_roundRobin (conns : List RelayConn) (nd : RelayNet) (hv : nd.Valid) :
    ∃ r nd', (∀ fuel ≥ nd.bots.length, getNextbot conns fuel nd = some (r, nd')) ∧
      FirstConnected conns nd r nd' ∧
      (r = .false ↔ ∀ name ∈ nd.bots, connectedBot conns name = none) ∧
      nd'.Valid ∧ nd'.bots = nd.bots := by
  have hpos : 0 < nd.bots.length := Nat.lt_of_lt_of_le hv.1 hv.2
  have hnone : NoneWithin conns nd 0 := fun j hj => absurd hj (Nat.not_lt_zero j)
  obtain ⟨r, nd', hrun, hspec⟩ := getNextbotLoop_spec hv hpos hnone (Nat.le_refl _)
  rw [hv.posFrom_zero] at hrun
  refine ⟨r, nd', fun fuel hfuel => ?_, hspec, hspec.false_iff hv, hspec.valid hv⟩
  obtain ⟨k, rfl⟩ := Nat.exists_eq_add_of_le hfuel
  exact getNextbotLoop_mono k hrun

/-- Three bots, the second of which is down, with the pointer on it: the third one is returned and
the pointer is back at the first. -/
theorem getNextbot_roundRobin_three :
    ∃ r nd', (∀ fuel ≥ 3, getNextbot
      [⟨bytes "a", .connected⟩, ⟨bytes "b", .connecting⟩, ⟨bytes "c", .connected⟩] fuel
      ⟨2, [bytes "a", bytes "b", bytes "c"]⟩ = some (r, nd')) ∧
        r = .conn ⟨bytes "c", .connected⟩ ∧ nd'.next = 1 := by
  obtain ⟨r, nd', hrun, -⟩ := getNextbot_roundRobin
    [⟨bytes "a", .connected⟩, ⟨bytes "b", .connecting⟩, ⟨bytes "c", .connected⟩]
    ⟨2, [bytes "a", bytes "b", bytes "c"]⟩ ⟨by decide, by decide⟩
  have hthree : getNextbot
      [⟨bytes "a", .connected⟩, ⟨bytes "b", .connecting⟩, ⟨bytes "c", .connected⟩] 3
      ⟨2, [bytes "a", bytes "b", bytes "c"]⟩ =
        some (.conn ⟨bytes "c", .connected⟩, ⟨1, [bytes "a", bytes "b", bytes "c"]⟩) := by
    decide
  obtain ⟨rfl, rfl⟩ := Prod.mk.inj (Option.some.inj (hthree.symm.trans (hrun 3 (Nat.le_refl _))))
  exact ⟨_, _, hrun, rfl, rfl⟩

end Meowbot
