import Meowbot.Irc

set_option relaxedAutoImplicit false
set_option autoImplicit false

/-!
# The lists of channels and users

Of the whole state of a connection, only the nick of the bot, its channels and their users matter
for what the bot knows about who is where. All that a message does to them is a sequence of a few
operations. Every invariant of the lists is derived from what one operation does.

## Main definitions

* `Meowbot.Lists` — nick, channels and users; `Meowbot.ListOp`, `Lists.apply` — the operations.
* `Meowbot.Lists.Along` — a condition on each operation of a sequence.
* `Meowbot.Lists.Valid`, `Meowbot.ListOp.Together` — what holds of the operations of a message.

## Main results

* `Meowbot.Lists.Along.preserves` — the invariant rule for sequences of operations.
* `Meowbot.Lists.along_of_together` — when a condition may be checked on the lists before a message.
-/

namespace Meowbot

/-- What a connection knows about channels and users. -/
structure Lists where
  nick : Bytes
  chans : List Bytes
  users : StrMap (StrMap IrcUser)

/-- An operation on the lists. All that the handlers of messages do to the channels and their users
is a sequence of these. -/
inductive ListOp where
  /-- The bot takes a nick. -/
  | setNick (nick : Bytes)
  /-- The bot enters a channel. -/
  | joinChan (chan : Bytes)
  /-- The bot leaves a channel. -/
  | leaveChan (chan : Bytes)
  /-- The users of a channel are forgotten. -/
  | clearUsers (chan : Bytes)
  /-- A user, with mode characters and perhaps an identity, is in a channel. -/
  | addUser (chan nick ident : Bytes)
  /-- A user is no longer in a channel. -/
  | delUser (chan nick : Bytes)
  /-- A user, if in a channel, takes a nick there. -/
  | renameUser (chan nick newnick ident : Bytes)
  /-- A user is given or loses a mode character. -/
  | setMode (chan nick : Bytes) (sign newmode : Byte)

/-- The identity that a user is stored with, perhaps empty. -/
def ListOp.ident? : ListOp → Option Bytes
  | .addUser _ _ ident => some ident
  | .renameUser _ _ _ ident => some ident
  | _ => none

namespace Lists

/-- The bot is in a channel. -/
def InChans (l : Lists) (chan : Bytes) : Prop := ∃ x ∈ l.chans, ircStrcasecmp x chan = 0

instance (l : Lists) (chan : Bytes) : Decidable (l.InChans chan) :=
  inferInstanceAs (Decidable (∃ x ∈ l.chans, ircStrcasecmp x chan = 0))

/-- The users of a channel. -/
def usersOf (l : Lists) (chan : Bytes) : StrMap IrcUser := (l.users.find? chan).getD .empty

/-- Change the users of a channel. -/
def mapUsers (l : Lists) (chan : Bytes) (f : StrMap IrcUser → StrMap IrcUser) : Lists :=
  { l with users := l.users.update chan fun users => f (users.getD .empty) }

/-- Forget the users of a channel. -/
def clearUsers (l : Lists) (chan : Bytes) : Lists := l.mapUsers chan fun _ => .empty

/-- Enter a channel, if it is not entered already. -/
def joinChan (l : Lists) (chan : Bytes) : Lists :=
  if chan = [] ∨ l.InChans chan then l
  else ({ l with chans := l.chans ++ [chan] } : Lists).clearUsers chan

/-- Leave a channel. -/
def leaveChan (l : Lists) (chan : Bytes) : Lists :=
  if chan ≠ [] ∧ l.InChans chan then
    ({ l with chans := l.chans.eraseP fun x => ircStrcasecmp x chan = 0 } : Lists).clearUsers chan
  else l

/-- Add a user or update one. -/
def addUser (l : Lists) (chan nick ident : Bytes) : Lists :=
  if chan = [] ∨ nick = [] then l
  else l.mapUsers chan fun users =>
    users.update (splitNickUsermode nick).2 (Irc.storeUser ident nick)

/-- Remove a user. -/
def delUser (l : Lists) (chan nick : Bytes) : Lists :=
  if chan = [] ∨ nick = [] then l
  else if (l.usersOf chan).contains (splitNickUsermode nick).2 then
    l.mapUsers chan fun users => users.erase (splitNickUsermode nick).2
  else l

/-- A user counts as in a channel. Empty names always do. -/
def userJoined (l : Lists) (chan nick : Bytes) : Bool :=
  chan = [] ∨ nick = [] ∨ (l.usersOf chan).contains (splitNickUsermode nick).2

/-- The decorated nick under which a user is added again with a new nick. -/
def decorated (l : Lists) (chan nick newnick : Bytes) : Bytes :=
  match if chan = [] ∨ nick = [] then none else (l.usersOf chan).find? nick with
  | some user => user.chanmode ++ newnick
  | none => newnick

/-- Rename a user who counts as in a channel. -/
def renameUser (l : Lists) (chan nick newnick ident : Bytes) : Lists :=
  if l.userJoined chan nick then
    (l.delUser chan nick).addUser chan (l.decorated chan nick newnick) ident
  else l

/-- Change the mode characters of a user, who is created if not known. -/
def setMode (l : Lists) (chan nick : Bytes) (sign newmode : Byte) : Lists :=
  l.mapUsers chan fun users => users.update nick fun user =>
    if sign = '+' then (user.getD .init).addToChanusermode [newmode]
    else (user.getD .init).delFromChanusermode [newmode]

/-- A bot with a nick that is in no channel. -/
def init (nick : Bytes) : Lists := { nick, chans := [], users := .empty }

/-- Perform an operation. -/
def apply (l : Lists) : ListOp → Lists
  | .setNick nick => { l with nick }
  | .joinChan chan => l.joinChan chan
  | .leaveChan chan => l.leaveChan chan
  | .clearUsers chan => l.clearUsers chan
  | .addUser chan nick ident => l.addUser chan nick ident
  | .delUser chan nick => l.delUser chan nick
  | .renameUser chan nick newnick ident => l.renameUser chan nick newnick ident
  | .setMode chan nick sign newmode => l.setMode chan nick sign newmode

/-- Each operation of a sequence meets a condition on the lists at its turn. -/
def Along (C : Lists → ListOp → Prop) : Lists → List ListOp → Prop
  | _, [] => True
  | l, op :: ops => C l op ∧ Along C (l.apply op) ops

/-- **The invariant rule for operations**: what each operation keeps that meets the condition, a
sequence of such operations keeps. -/
lemma Along.preserves {C : Lists → ListOp → Prop} {I : Lists → Prop}
    (hop : ∀ l op, I l → C l op → I (l.apply op)) {l : Lists} {ops : List ListOp}
    (h : Along C l ops) (hl : I l) : I (ops.foldl apply l) := by
  induction ops generalizing l with
  | nil => exact hl
  | cons op ops ih => exact ih h.2 (hop l op hl h.1)

/-! ## What an operation leaves alone -/

/-- A channel is in the list if its lower-case form is one of those in the list. -/
lemma inChans_iff (l : Lists) (chan : Bytes) :
    l.InChans chan ↔ ircStrlower chan ∈ l.chans.map ircStrlower := by
  simp only [InChans, ircStrcasecmp_eq_zero, List.mem_map]

@[simp] lemma chans_addUser (l : Lists) (chan nick ident : Bytes) :
    (l.addUser chan nick ident).chans = l.chans := by
  unfold addUser
  split_ifs <;> rfl

@[simp] lemma chans_delUser (l : Lists) (chan nick : Bytes) :
    (l.delUser chan nick).chans = l.chans := by
  unfold delUser
  split_ifs <;> rfl

@[simp] lemma chans_renameUser (l : Lists) (chan nick newnick ident : Bytes) :
    (l.renameUser chan nick newnick ident).chans = l.chans := by
  unfold renameUser
  split_ifs <;> simp

/-- The users of a channel do not depend on the spelling of its name. -/
lemma usersOf_congr (l : Lists) {chan x : Bytes} (h : ircStrlower x = ircStrlower chan) :
    l.usersOf x = l.usersOf chan := by
  unfold usersOf
  rw [FoldMap.find?_congr _ h]

/-- The users of a channel after a change of the users of one. -/
lemma usersOf_mapUsers (l : Lists) (chan : Bytes) (f : StrMap IrcUser → StrMap IrcUser)
    (x : Bytes) :
    (l.mapUsers chan f).usersOf x =
      if ircStrlower x = ircStrlower chan then f (l.usersOf chan) else l.usersOf x := by
  unfold mapUsers usersOf
  rw [FoldMap.find?_update]
  split_ifs <;> rfl

/-- A removal leaves the users of other channels alone. -/
lemma usersOf_delUser_of_ne (l : Lists) {chan x : Bytes} (h : ircStrlower x ≠ ircStrlower chan)
    (nick : Bytes) : (l.delUser chan nick).usersOf x = l.usersOf x := by
  unfold delUser
  split_ifs
  · rfl
  · rw [usersOf_mapUsers, if_neg h]
  · rfl

/-- An addition leaves the users of other channels alone. -/
lemma usersOf_addUser_of_ne (l : Lists) {chan x : Bytes} (h : ircStrlower x ≠ ircStrlower chan)
    (nick ident : Bytes) : (l.addUser chan nick ident).usersOf x = l.usersOf x := by
  unfold addUser
  split_ifs
  · rfl
  · rw [usersOf_mapUsers, if_neg h]

/-- A rename leaves the users of other channels alone. -/
lemma usersOf_renameUser_of_ne (l : Lists) {chan x : Bytes} (h : ircStrlower x ≠ ircStrlower chan)
    (nick newnick ident : Bytes) : (l.renameUser chan nick newnick ident).usersOf x = l.usersOf x := by
  unfold renameUser
  split_ifs
  · rw [usersOf_addUser_of_ne _ h, usersOf_delUser_of_ne _ h]
  · rfl

/-- A removal depends on the users of the channel. -/
lemma usersOf_delUser_congr {l l' : Lists} {chan : Bytes} (h : l'.usersOf chan = l.usersOf chan)
    (nick : Bytes) : (l'.delUser chan nick).usersOf chan = (l.delUser chan nick).usersOf chan := by
  unfold delUser
  rw [h]
  split_ifs
  · exact h
  · rw [usersOf_mapUsers, usersOf_mapUsers, if_pos rfl, if_pos rfl, h]
  · exact h

/-- Whether a user counts as in a channel depends on the users of the channel. -/
lemma userJoined_congr {l l' : Lists} {chan : Bytes} (h : l'.usersOf chan = l.usersOf chan)
    (nick : Bytes) : l'.userJoined chan nick = l.userJoined chan nick := by
  simp only [userJoined, h]

/-- The decorated nick depends on the users of the channel. -/
lemma decorated_congr {l l' : Lists} {chan : Bytes} (h : l'.usersOf chan = l.usersOf chan)
    (nick newnick : Bytes) : l'.decorated chan nick newnick = l.decorated chan nick newnick := by
  simp only [decorated, h]

end Lists

/-! ## The operations of one message -/

/-- What holds of every operation of a message: the names of channels entered contain no NUL, a
user is renamed in channels of the list, and what is set are mode characters. -/
def Lists.Valid (l : Lists) : ListOp → Prop
  | .joinChan chan => 0 ∉ chan
  | .renameUser chan _ _ _ => l.InChans chan
  | .setMode _ _ _ newmode => isModeChar newmode
  | _ => True

/-- A message may perform the second operation some time after the first. What holds of an operation
before a message has to survive the operations of the message in front of it, and only these pairs
occur. -/
inductive ListOp.Together : ListOp → ListOp → Prop
  | setMode (chan nick : Bytes) (sign newmode : Byte) (chan' nick' : Bytes)
      (sign' newmode' : Byte) :
      Together (.setMode chan nick sign newmode) (.setMode chan' nick' sign' newmode')
  | setNick (newnick chan nick newnick' ident : Bytes) :
      Together (.setNick newnick) (.renameUser chan nick newnick' ident)
  | renameUser {chan chan' : Bytes} (h : ircStrlower chan ≠ ircStrlower chan')
      (nick newnick ident : Bytes) :
      Together (.renameUser chan nick newnick ident) (.renameUser chan' nick newnick ident)
  | clearUsers (chan chan' nick : Bytes) {ident : Bytes} (h : ident ≠ []) :
      Together (.clearUsers chan) (.addUser chan' nick ident)
  | addUser (chan nick chan' nick' : Bytes) {ident ident' : Bytes} (h : ident = [] ↔ ident' = []) :
      Together (.addUser chan nick ident) (.addUser chan' nick' ident')
  | delUser (chan nick chan' nick' : Bytes) : Together (.delUser chan nick) (.delUser chan' nick')

open ListOp (Together)

/-- **A condition on the operations of a message** may be checked on the lists before the message,
if an operation does not disturb the condition of a later one. -/
lemma Lists.along_of_together {C : Lists → ListOp → Prop}
    (hstep : ∀ l a b, Together a b → C l a → C l b → C (l.apply a) b) {ops : List ListOp}
    (hops : ops.Pairwise Together) {l : Lists} (h : ∀ op ∈ ops, C l op) : Along C l ops := by
  induction ops generalizing l with
  | nil => exact trivial
  | cons a ops ih =>
    obtain ⟨ha, hops⟩ := List.pairwise_cons.mp hops
    refine ⟨h a List.mem_cons_self, ih hops fun b hb => ?_⟩
    exact hstep l a b (ha b hb) (h a List.mem_cons_self) (h b (List.mem_cons_of_mem _ hb))

/-- Operations of one message stay valid. -/
lemma Lists.Valid.together {l : Lists} {a b : ListOp} (hab : Together a b) (hb : l.Valid b) :
    (l.apply a).Valid b := by
  cases hab with
  | setNick newnick chan nick newnick' ident => exact hb
  | renameUser h nick newnick ident =>
    simp only [Valid, apply, InChans, chans_renameUser]
    exact hb
  | setMode => exact hb
  | clearUsers => trivial
  | addUser => trivial
  | delUser => trivial

end Meowbot
