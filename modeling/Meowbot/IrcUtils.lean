import Meowbot.IrcString
import Meowbot.Lib.SeqPattern

set_option relaxedAutoImplicit false
set_option autoImplicit false

/-!
# Nicks, identities and messages (`ircutils.h`, `ircutils.cpp`)

The classes hold parts of protocol lines that are taken apart by regular expressions. The
expressions are written as sequence patterns, atom by atom; a `FullMatch` is anchored at the
start of the text only, since the library is built without its end-anchored variant. The dot
matches everything but a newline.

## Main definitions

* `Meowbot.splitNickUsermode` — a nick as it stands in user lists, in mode characters and nick.
* `Meowbot.IrcIdent` — `irc_ident`; `Meowbot.IrcUser` — `irc_user`, a user in a channel.
* `Meowbot.IrcMsginfo`, `Meowbot.IrcPrivmsg` — the destination and kind of a message, and a
  received message.

## Main results

* `Meowbot.reSplitIdent_exec` — which strings are split as `nick!user@host`.
* `Meowbot.reCtcpMessage_exec`, `Meowbot.reActionMessage_exec` — which texts are CTCP messages.
-/

namespace Meowbot

open SeqPattern

/-! ## The regular expressions -/

/-- The class `[~&@%+]` of the channel mode characters in front of a nick. -/
def isModeChar (c : Byte) : Bool := c ∈ bytes "~&@%+"

/-- The class `.`. -/
def dot (c : Byte) : Bool := c ≠ LF

/-- `^([~&@%+]*+)(.*)` -/
def reSplitNickUsermode : Pattern Byte :=
  ⟨[.many isModeChar 0 true, .many dot 0 false], [(0, 1), (1, 1)]⟩

/-- `^[~&@%+]*(.*)` -/
def reExtractNick : Pattern Byte :=
  ⟨[.many isModeChar 0 false, .many dot 0 false], [(1, 1)]⟩

/-- `^([^!]+)!([^@]+)@(.*)\z` -/
def reSplitIdent : Pattern Byte :=
  ⟨[.many (· ≠ '!') 1 false, .one (· = '!'), .many (· ≠ '@') 1 false, .one (· = '@'),
    .many dot 0 false, .textEnd], [(0, 1), (2, 1), (4, 1)]⟩

/-- `^\1ACTION (.*)\1$` -/
def reActionMessage : Pattern Byte :=
  ⟨lits (1 :: bytes "ACTION ") ++ [.many dot 0 false, .one (· = 1), .lineEnd LF], [(8, 1)]⟩

/-- `^\1(.*)\1$` -/
def reCtcpMessage : Pattern Byte :=
  ⟨[.one (· = 1), .many dot 0 false, .one (· = 1), .lineEnd LF], [(1, 1)]⟩

/-- `^([~&@%+]*[^!]+)` -/
def reModeAndNick : Pattern Byte :=
  ⟨[.many isModeChar 0 false, .many (· ≠ '!') 1 false], [(0, 2)]⟩

/-- `([~&@%+]+)` -/
def reExtractModeChars : Pattern Byte := ⟨[.many isModeChar 1 false], [(0, 1)]⟩

/-! ## The classes -/

/-- `split_nick_usermode`: the mode characters of a decorated nick, and the nick. The expression
matches every text. -/
def splitNickUsermode (str : Bytes) : Bytes × Bytes :=
  match reSplitNickUsermode.exec str with
  | some [mode, nick] => (mode, nick)
  | _ => ([], [])

/-- What is left of a nick when its mode characters are removed by the global replacement of
`^[~&@%+]*`, which can match at the start only. -/
def removeModechars (nick : Bytes) : Bytes := nick.dropWhile isModeChar

/-- `irc_ident`. -/
structure IrcIdent where
  ident : Bytes
  nick : Bytes
  user : Bytes
  host : Bytes
  deriving DecidableEq

/-- `irc_ident::set_ident`. It overwrites all four fields. -/
def IrcIdent.setIdent (ident : Bytes) : IrcIdent :=
  if ident = [] then { ident := bytes "!@", nick := [], user := [], host := [] }
  else match reSplitIdent.exec ident with
    | some [nick, user, host] => { ident, nick := removeModechars nick, user, host }
    | _ => { ident, nick := ident, user := [], host := ident }

/-- The identity stored is never empty. -/
lemma IrcIdent.ident_setIdent_ne_nil (ident : Bytes) : (setIdent ident).ident ≠ [] := by
  unfold setIdent
  split_ifs with h
  · decide
  · split <;> exact h

/-- `irc_user`. -/
structure IrcUser extends IrcIdent where
  chanmode : Bytes
  deriving DecidableEq

/-- `irc_user::irc_user`. -/
def IrcUser.init : IrcUser := { IrcIdent.setIdent [] with chanmode := [] }

/-- `irc_ident::set_ident` of a user. -/
def IrcUser.setIdent (u : IrcUser) (ident : Bytes) : IrcUser :=
  { IrcIdent.setIdent ident with chanmode := u.chanmode }

/-- `irc_user::set_nick`, which hides `irc_ident::set_nick` and leaves `ident` alone. -/
def IrcUser.setNick (u : IrcUser) (nick : Bytes) : IrcUser :=
  { u with chanmode := (splitNickUsermode nick).1, nick := (splitNickUsermode nick).2 }

/-- `irc_user::add_to_chanusermode`. -/
def IrcUser.addToChanusermode (u : IrcUser) (newmode : Bytes) : IrcUser :=
  { u with chanmode := newmode.foldl (fun m c => if c ∈ m then m else m ++ [c]) u.chanmode }

/-- `irc_user::del_from_chanusermode`. -/
def IrcUser.delFromChanusermode (u : IrcUser) (newmode : Bytes) : IrcUser :=
  { u with chanmode := newmode.foldl List.erase u.chanmode }

/-- `irc_chantype`. -/
inductive IrcChantype where
  | none | chan | query | dcc | telnet
  deriving DecidableEq

/-- `irc_msgtype`. -/
inductive IrcMsgtype where
  | none | normal | notice | action | ctcp | ctcpreply
  deriving DecidableEq

/-- `irc_msginfo`. -/
structure IrcMsginfo where
  chantype : IrcChantype
  msgtype : IrcMsgtype
  chan : Bytes
  priority : ℤ
  lineConverted : Bool
  deriving DecidableEq

/-- `IRC_PRIORITY_BNORMAL`. -/
def ircPriorityBnormal : ℤ := -1

/-- `IRC_PRIORITY_ANORMAL`. -/
def ircPriorityAnormal : ℤ := 1

/-- `IRC_PRIORITY_MAX`. -/
def ircPriorityMax : ℤ := 99

/-- `irc_msginfo::irc_msginfo`. -/
def IrcMsginfo.init (chan : Bytes) (msgtype : IrcMsgtype) (chantype : IrcChantype)
    (lineConverted : Bool) : IrcMsginfo :=
  { chantype, msgtype, chan, priority := ircPriorityBnormal, lineConverted }

/-- `irc_privmsg`, a received message. -/
structure IrcPrivmsg where
  origin : IrcIdent
  msginfo : IrcMsginfo
  msg : Bytes
  deriving DecidableEq

/-- `irc_privmsg::irc_privmsg`: the kind of the message and its text are read off the text
received, and a message that does not go to a channel is one from its sender. -/
def IrcPrivmsg.init (ident : IrcIdent) (msginfo : IrcMsginfo) (msg : Bytes) : IrcPrivmsg :=
  let typed : IrcMsgtype × Bytes :=
    if msginfo.msgtype = .notice then
      match reCtcpMessage.exec msg with
      | some [tmp] => (.ctcpreply, tmp)
      | _ => (msginfo.msgtype, msg)
    else
      match reActionMessage.exec msg with
      | some [tmp] => (.action, tmp)
      | _ => match reCtcpMessage.exec msg with
        | some [tmp] => (.ctcp, tmp)
        | _ => (msginfo.msgtype, msg)
  let placed : IrcChantype × Bytes :=
    if msginfo.chantype ≠ .dcc then
      if msginfo.chan.head? = some ('#' : Byte) ∨ msginfo.chan.head? = some ('&' : Byte) then
        (.chan, msginfo.chan)
      else (.query, ident.nick)
    else (msginfo.chantype, msginfo.chan)
  { origin := ident
    msginfo := { msginfo with msgtype := typed.1, chantype := placed.1, chan := placed.2 }
    msg := typed.2 }

/-! ## What the expressions match -/

/-- A decorated nick is split behind its mode characters. -/
lemma splitNickUsermode_eq (str : Bytes) :
    splitNickUsermode str =
      (str.takeWhile isModeChar, (str.dropWhile isModeChar).takeWhile dot) := by
  have h : matchAtoms reSplitNickUsermode.atoms str =
      some [str.takeWhile isModeChar, (str.dropWhile isModeChar).takeWhile dot] := by
    rw [reSplitNickUsermode, matchAtoms_many_possessive, matchAtoms_many_end,
      if_pos (Nat.zero_le _), Option.map_some]
  rw [splitNickUsermode, Pattern.exec, h]
  simp [reSplitNickUsermode]

/-- The nick of a decorated nick, as `is_user_joined` extracts it. -/
lemma reExtractNick_exec (str : Bytes) :
    reExtractNick.exec str = some [(str.dropWhile isModeChar).takeWhile dot] := by
  have h : matchAtoms reExtractNick.atoms str =
      some [str.takeWhile isModeChar, (str.dropWhile isModeChar).takeWhile dot] := by
    refine matchAtoms_many_of_some ?_ false
    rw [matchAtoms_many_end, if_pos (Nat.zero_le _)]
  rw [Pattern.exec, h]
  simp [reExtractNick]

/-- The mode characters of a decorated nick are mode characters. -/
lemma splitNickUsermode_mode (str : Bytes) : ∀ c ∈ (splitNickUsermode str).1, isModeChar c := by
  intro c hc
  rw [splitNickUsermode_eq] at hc
  exact List.mem_takeWhile_imp hc

/-- Mode characters in front of a nick do not change the nick. -/
lemma splitNickUsermode_append {mode : Bytes} (h : ∀ c ∈ mode, isModeChar c) (nick : Bytes) :
    (splitNickUsermode (mode ++ nick)).2 = (splitNickUsermode nick).2 := by
  rw [splitNickUsermode_eq, splitNickUsermode_eq, List.dropWhile_append_of_pos h]

/-- Adding a mode character leaves a string of mode characters. -/
lemma IrcUser.isModeChar_addToChanusermode {u : IrcUser} {newmode : Byte}
    (hu : ∀ c ∈ u.chanmode, isModeChar c) (hmode : isModeChar newmode) :
    ∀ c ∈ (u.addToChanusermode [newmode]).chanmode, isModeChar c := by
  intro c hc
  simp only [addToChanusermode, List.foldl_cons, List.foldl_nil] at hc
  split_ifs at hc
  · exact hu c hc
  · rcases List.mem_append.mp hc with hc | hc
    · exact hu c hc
    · rwa [List.mem_singleton.mp hc]

/-- Removing a mode character leaves a string of mode characters. -/
lemma IrcUser.isModeChar_delFromChanusermode {u : IrcUser} (hu : ∀ c ∈ u.chanmode, isModeChar c)
    (newmode : Byte) : ∀ c ∈ (u.delFromChanusermode [newmode]).chanmode, isModeChar c :=
  fun c hc => hu c (List.mem_of_mem_erase hc)

/-- **Identities that are split**: exactly those of the form `nick!user@host` with a nonempty nick
without `!`, a nonempty user without `@` and a host without newline.

**Proof sketch.** Each of the first two parts is cut at its separator (`matchAtoms_upto`), and the
last one is taken up to the end, which is all of it if it has no newline. -/
lemma reSplitIdent_exec {ident : Bytes} {r : List Bytes} :
    reSplitIdent.exec ident = some r ↔
      ∃ nick user host : Bytes, r = [nick, user, host] ∧
        ident = nick ++ ('!' : Byte) :: (user ++ ('@' : Byte) :: host) ∧
        nick ≠ [] ∧ ('!' : Byte) ∉ nick ∧ user ≠ [] ∧ ('@' : Byte) ∉ user ∧ LF ∉ host := by
  have hhost : ∀ host : Bytes, host.dropWhile dot = [] ↔ LF ∉ host := by
    intro host
    rw [List.dropWhile_eq_nil_iff]
    constructor
    · intro h hmem
      simpa [dot] using h LF hmem
    · intro h c hc
      simp only [dot, decide_eq_true_eq]
      rintro rfl
      exact h hc
  constructor
  · intro h
    obtain ⟨ps, hps, rfl⟩ := Option.map_eq_some_iff.mp h
    obtain ⟨nick, t, ps₁, rfl, hn, hn', hps₁, rfl⟩ := matchAtoms_upto.mp hps
    obtain ⟨user, host, ps₂, rfl, hu, hu', hps₂, rfl⟩ := matchAtoms_upto.mp hps₁
    rw [matchAtoms_many_textEnd] at hps₂
    split_ifs at hps₂ with hd
    obtain rfl := Option.some.inj hps₂
    have hall : host.takeWhile dot = host := by
      rw [← List.append_nil (host.takeWhile dot), ← hd, List.takeWhile_append_dropWhile]
    exact ⟨nick, user, host, by simp [reSplitIdent, hall], rfl, hn, hn', hu, hu', (hhost _).mp hd⟩
  · rintro ⟨nick, user, host, rfl, rfl, hn, hn', hu, hu', hh⟩
    have hd := (hhost host).mpr hh
    have hall : host.takeWhile dot = host := by
      rw [← List.append_nil (host.takeWhile dot), ← hd, List.takeWhile_append_dropWhile]
    have hmatch : matchAtoms reSplitIdent.atoms
        (nick ++ ('!' : Byte) :: (user ++ ('@' : Byte) :: host)) =
        some [nick, ['!'], user, ['@'], host, []] := by
      refine matchAtoms_upto.mpr ⟨nick, _, _, rfl, hn, hn', ?_, rfl⟩
      refine matchAtoms_upto.mpr ⟨user, _, _, rfl, hu, hu', ?_, rfl⟩
      rw [matchAtoms_many_textEnd, if_pos hd, hall]
    rw [Pattern.exec, hmatch]
    simp [reSplitIdent]

/-- The dot as the class of the characters other than the line terminator. -/
lemma dot_eq : dot = fun c => decide (c ≠ LF) := rfl

/-- **CTCP texts**: a line that starts and ends with `\1`, these being two characters. -/
lemma reCtcpMessage_exec {s : Bytes} (hs : LF ∉ s) :
    reCtcpMessage.exec s =
      if s.head? = some 1 ∧ s.tail.getLast? = some 1 then some [s.tail.dropLast] else none := by
  rcases s with _ | ⟨x, t⟩
  · rfl
  · have ht : LF ∉ t := fun h => hs (List.mem_cons_of_mem _ h)
    rw [Pattern.exec, reCtcpMessage, matchAtoms_one_cons, dot_eq, matchAtoms_upto_last t ht]
    by_cases hx : x = 1 <;> by_cases hl : t.getLast? = some 1 <;> simp [hx, hl]

/-- **Action texts**: a line that starts with `\1ACTION ` and whose rest ends with `\1`. -/
lemma reActionMessage_exec {s : Bytes} (hs : LF ∉ s) :
    reActionMessage.exec s =
      if (1 :: bytes "ACTION ") <+: s ∧ (s.drop 8).getLast? = some 1 then
        some [(s.drop 8).dropLast] else none := by
  have hd : LF ∉ s.drop 8 := fun h => hs (List.mem_of_mem_drop h)
  have hlen : (1 :: bytes "ACTION ").length = 8 := rfl
  rw [Pattern.exec, reActionMessage, matchAtoms_lits, hlen, dot_eq, matchAtoms_upto_last _ hd]
  by_cases hx : 1 :: bytes "ACTION " <+: s
  · by_cases hl : (s.drop 8).getLast? = some 1
    · simp [hl, bytes]
    · simp [hl]
  · simp [hx]

/-- The decorated nick in front of the first `!`, if it is not empty.

**Proof sketch.** The characters of a mode are among those of a nick, so the two repetitions take
the run of the larger class together (`matchAtoms_many_many`). -/
lemma reModeAndNick_exec (s : Bytes) :
    reModeAndNick.exec s =
      if s.takeWhile (fun c => c ≠ ('!' : Byte)) = [] then none
      else some [s.takeWhile fun c => c ≠ ('!' : Byte)] := by
  have hsub : ∀ c : Byte, isModeChar c = true → decide (c ≠ ('!' : Byte)) = true := by
    intro c hc
    simp only [decide_eq_true_eq]
    rintro rfl
    revert hc
    decide
  have h := matchAtoms_many_many hsub s
  have hgroup : reModeAndNick.exec s = ((matchAtoms reModeAndNick.atoms s).map
      List.flatten).map ([·]) := by
    rw [Pattern.exec, Option.map_map]
    rcases hm : matchAtoms reModeAndNick.atoms s with _ | ps
    · rfl
    · have hlen : ps.length ≤ 2 := (matchAtoms_length hm).le
      simp [reModeAndNick, List.take_of_length_le hlen]
  rw [hgroup, reModeAndNick, h]
  split_ifs <;> rfl

end Meowbot
