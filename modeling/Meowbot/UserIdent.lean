import Meowbot.UserTable

set_option relaxedAutoImplicit false
set_option autoImplicit false

/-!
# The identities of the users

A record holds the identity of a user four times: as a whole and as nick, user and host. The nick
is written by `irc_user::set_nick`, which hides the method of the base class that puts the
identity together again. So the copies agree only if the identity was set, before the nick, from a
string `nick!user@host` with the very same nick, or if the nick does not change at all.

## Main definitions

* `Meowbot.Decorates` — a string contains a nick with a mode character in front.
* `Meowbot.Consistent` — the copies in a record agree and have been received.
* `Meowbot.Lists.IdentOp` — the operations that keep them so.
* `Meowbot.Irc.hear` — the inputs of a connection, with the identities received.

## Main results

* `Meowbot.Irc.run_consistent` — all records are consistent as long as the messages keep them so.
-/

namespace Meowbot

open Runs
open ListOp (Together)

/-! ## Records -/

/-- A string contains a nick with a mode character in front. -/
def Decorates (nick s : Bytes) : Prop := ∃ c ∈ bytes "~&@%+", c :: nick <:+: s

instance (nick s : Bytes) : Decidable (Decorates nick s) :=
  inferInstanceAs (Decidable (∃ c ∈ bytes "~&@%+", c :: nick <:+: s))

/-- The empty string contains no decorated nick. -/
lemma not_decorates_nil (nick : Bytes) : ¬ Decorates nick [] := by
  rintro ⟨c, -, hinfix⟩
  exact List.cons_ne_nil c nick (List.infix_nil.mp hinfix)

/-- **The copies in a record agree**, user and host are empty or from an identity received, and
they contain no decorated nick. -/
structure Consistent (told : List Bytes) (user : IrcUser) : Prop where
  ident_eq : user.ident = user.nick ++ ('!' : Byte) :: (user.user ++ ('@' : Byte) :: user.host)
  received : (user.user = [] ∧ user.host = []) ∨ user.ident ∈ told
  user_plain : ¬ Decorates user.nick user.user
  host_plain : ¬ Decorates user.nick user.host
  modes : ∀ c ∈ user.chanmode, isModeChar c

/-- A record stays consistent when more is received. -/
lemma Consistent.mono {told told' : List Bytes} {user : IrcUser} (h : Consistent told user)
    (hle : told ⊆ told') : Consistent told' user :=
  { h with received := h.received.imp id fun hmem => hle hmem }

/-- A new record is consistent. -/
lemma consistent_init (told : List Bytes) : Consistent told IrcUser.init :=
  { ident_eq := rfl
    received := .inl ⟨rfl, rfl⟩
    user_plain := not_decorates_nil _
    host_plain := not_decorates_nil _
    modes := fun _ h => absurd h List.not_mem_nil }

/-- A change of modes keeps a record consistent. -/
lemma Consistent.setModes {told : List Bytes} {user : IrcUser} (h : Consistent told user)
    {newmode : Byte} (hmode : isModeChar newmode) :
    Consistent told (user.addToChanusermode [newmode]) ∧
      Consistent told (user.delFromChanusermode [newmode]) :=
  ⟨{ h with modes := IrcUser.isModeChar_addToChanusermode h.modes hmode },
    { h with modes := IrcUser.isModeChar_delFromChanusermode h.modes newmode }⟩

/-- A string is an identity of a nick, with a user and a host that contain no decorated nick. -/
def IdentOf (nick ident : Bytes) : Prop :=
  ∃ r ∈ reSplitIdent.exec ident, r.head? = some nick ∧ ∀ s ∈ r.tail, ¬ Decorates nick s

instance (nick ident : Bytes) : Decidable (IdentOf nick ident) :=
  inferInstanceAs (Decidable (∃ r ∈ reSplitIdent.exec ident, _ ∧ _))

/-- **A record that is written with an identity of its nick** is consistent.

**Proof sketch.** The identity splits into nick, user and host, and the nick is the one of the
record; so the record has these parts, which is what consistency asks for. -/
lemma consistent_storeUser {told : List Bytes} {ident nick : Bytes} (hident : ident ∈ told)
    (h : IdentOf (splitNickUsermode nick).2 ident) (user : Option IrcUser) :
    Consistent told (Irc.storeUser ident nick user) := by
  obtain ⟨r, hr, hhead, hplain⟩ := h
  obtain ⟨n, u, host, rfl, hsplit, -⟩ := reSplitIdent_exec.mp hr
  obtain rfl := Option.some.inj hhead
  have hne : ident ≠ [] := by
    rw [hsplit]
    simp
  have hstore : Irc.storeUser ident nick user =
      { ident, nick := (splitNickUsermode nick).2, user := u, host,
        chanmode := (splitNickUsermode nick).1 } := by
    simp only [Irc.storeUser, if_pos hne, IrcUser.setIdent, IrcIdent.setIdent, if_neg hne,
      Option.mem_def.mp hr, IrcUser.setNick]
  rw [hstore]
  exact {
    ident_eq := hsplit
    received := .inr hident
    user_plain := hplain u (by simp)
    host_plain := hplain host (by simp)
    modes := splitNickUsermode_mode nick }

/-- **A record whose nick does not change** stays consistent without an identity. -/
lemma Consistent.storeUser {told : List Bytes} {nick : Bytes} {user : IrcUser}
    (h : Consistent told user) (hnick : user.nick = (splitNickUsermode nick).2) :
    Consistent told (user.setNick nick) := by
  have hset : user.setNick nick = { user with chanmode := (splitNickUsermode nick).1 } := by
    rw [IrcUser.setNick, ← hnick]
  rw [hset]
  exact { h with modes := splitNickUsermode_mode nick }

namespace Lists

/-! ## Operations -/

/-- What a user is stored with suits the record: an identity of the nick, or none if the record has
the nick already. -/
def IdentOk (l : Lists) (chan nick ident : Bytes) : Prop :=
  if ident = [] then
    (((l.usersOf chan).find? (splitNickUsermode nick).2).getD .init).nick =
      (splitNickUsermode nick).2
  else IdentOf (splitNickUsermode nick).2 ident

instance (l : Lists) (chan nick ident : Bytes) : Decidable (l.IdentOk chan nick ident) :=
  inferInstanceAs (Decidable (if ident = [] then _ else _))

/-- The operations that keep the copies in the records in step. -/
def IdentOp (l : Lists) : ListOp → Prop
  | .addUser chan nick ident => chan = [] ∨ nick = [] ∨ l.IdentOk chan nick ident
  | .renameUser chan nick newnick ident => l.userJoined chan nick = true →
    l.decorated chan nick newnick = [] ∨ (l.delUser chan nick).IdentOk chan newnick ident
  | _ => True

instance (l : Lists) : (op : ListOp) → Decidable (l.IdentOp op)
  | .addUser chan nick ident =>
    inferInstanceAs (Decidable (chan = [] ∨ nick = [] ∨ l.IdentOk chan nick ident))
  | .renameUser chan nick newnick ident => inferInstanceAs (Decidable
      (l.userJoined chan nick = true → l.decorated chan nick newnick = [] ∨
        (l.delUser chan nick).IdentOk chan newnick ident))
  | .setNick _ => isTrue trivial
  | .joinChan _ => isTrue trivial
  | .leaveChan _ => isTrue trivial
  | .clearUsers _ => isTrue trivial
  | .delUser _ _ => isTrue trivial
  | .setMode _ _ _ _ => isTrue trivial

/-- Adding a user keeps the records consistent. -/
lemma consistent_addUser {l : Lists} {told : List Bytes}
    (h : l.AllUsers fun _ user => Consistent told user) {chan nick ident : Bytes}
    (hident : ident ∈ told) (hop : chan = [] ∨ nick = [] ∨ l.IdentOk chan nick ident) :
    (l.addUser chan nick ident).AllUsers fun _ user => Consistent told user := by
  refine h.addUser fun hchan hnick _ _ _ => ?_
  have hok := (hop.resolve_left hchan).resolve_left hnick
  unfold IdentOk at hok
  split_ifs at hok with hnil
  · have hold : Consistent told
        (((l.usersOf chan).find? (splitNickUsermode nick).2).getD .init) := by
      rcases hfind : (l.usersOf chan).find? (splitNickUsermode nick).2 with _ | user
      · exact consistent_init told
      · obtain ⟨-, -, huser⟩ := (h chan).of_find? hfind
        exact huser
    rw [Irc.storeUser, if_neg (not_not.mpr hnil)]
    exact hold.storeUser hok
  · exact consistent_storeUser hident hok _

/-- **One operation** keeps the records consistent. -/
lemma consistent_apply {l : Lists} {told : List Bytes} {op : ListOp}
    (h : l.AllUsers fun _ user => Consistent told user) (hvalid : l.Valid op)
    (htold : ∀ ident, op.ident? = some ident → ident ∈ told) (hop : l.IdentOp op) :
    (l.apply op).AllUsers fun _ user => Consistent told user := by
  refine AllUsers.apply h ?_ ?_ ?_
  · rintro chan nick ident rfl
    exact consistent_addUser h (htold ident rfl) hop
  · rintro chan nick newnick ident rfl hjoined
    refine consistent_addUser (h.delUser chan nick) (htold ident rfl) (.inr ?_)
    have hmodes : l.ModesOk := fun x => (h x).imp fun _ _ huser => huser.modes
    unfold IdentOk
    rw [hmodes.splitNickUsermode_decorated]
    exact hop hjoined
  · rintro chan nick sign newmode rfl
    exact h.setMode (fun _ _ huser => huser.setModes hvalid)
      fun _ => (consistent_init told).setModes hvalid

/-- The condition on a rename depends on the users of the channel. -/
lemma IdentOp.renameUser_congr {l l' : Lists} {chan nick newnick ident : Bytes}
    (hop : l.IdentOp (.renameUser chan nick newnick ident))
    (h : l'.usersOf chan = l.usersOf chan) : l'.IdentOp (.renameUser chan nick newnick ident) := by
  simp only [IdentOp, IdentOk, userJoined_congr h, decorated_congr h, usersOf_delUser_congr h]
  exact hop

/-- An addition without identity does not disturb another one: where both write the same record,
both have found their nick in it.

**Proof sketch.** Without an identity the condition is that the nick is found in the table. If the
addition writes the same key, what is there is the record it found; otherwise the entry is the same
as before. -/
lemma IdentOk.addUser {l : Lists} {chan nick chan' nick' : Bytes}
    (hself : chan = [] ∨ nick = [] ∨ l.IdentOk chan nick []) (h : l.IdentOk chan' nick' []) :
    (l.addUser chan nick []).IdentOk chan' nick' [] := by
  unfold IdentOk at h hself ⊢
  rw [if_pos rfl] at h hself ⊢
  by_cases hskip : chan = [] ∨ nick = []
  · rw [Lists.addUser, if_pos hskip]
    exact h
  · obtain ⟨hchan, hnick⟩ := not_or.mp hskip
    have hfound := (hself.resolve_left hchan).resolve_left hnick
    rw [Lists.addUser, if_neg hskip, usersOf_mapUsers]
    by_cases heq : ircStrlower chan' = ircStrlower chan
    · rw [if_pos heq, FoldMap.find?_update]
      rw [l.usersOf_congr heq] at h
      by_cases hkey : ircStrlower (splitNickUsermode nick').2 =
          ircStrlower (splitNickUsermode nick).2
      · rw [if_pos hkey]
        rw [FoldMap.find?_congr _ hkey] at h
        exact hfound.symm.trans h
      · rw [if_neg hkey]
        exact h
    · rw [if_neg heq]
      exact h

/-- An operation does not disturb the condition of a later one of the same message.

**Proof sketch.** By cases on the two operations that stand together in one message. The condition
of an addition is about the table of its channel, which the earlier operation leaves alone, or
empties, or changes under another key. -/
lemma IdentOp.together {l : Lists} {a b : ListOp} (hab : Together a b) (ha : l.IdentOp a)
    (hb : l.IdentOp b) : (l.apply a).IdentOp b := by
  cases hab with
  | setNick newnick chan nick newnick' ident => exact IdentOp.renameUser_congr hb rfl
  | renameUser h nick newnick ident =>
    exact IdentOp.renameUser_congr hb (l.usersOf_renameUser_of_ne (Ne.symm h) nick newnick ident)
  | setMode => trivial
  | delUser => trivial
  | clearUsers chan chan' nick h =>
    refine hb.imp id (.imp id fun hok => ?_)
    unfold IdentOk at hok ⊢
    rw [if_neg h] at hok ⊢
    exact hok
  | addUser chan nick chan' nick' h =>
    rename_i ident ident'
    refine hb.imp id (.imp id fun hok => ?_)
    by_cases hnil : ident' = []
    · obtain rfl := hnil
      obtain rfl := h.mpr rfl
      exact hok.addUser ha
    · unfold IdentOk at hok ⊢
      rw [if_neg hnil] at hok ⊢
      exact hok

/-- Without users, all records are consistent. -/
lemma consistent_lists_init (nick : Bytes) (told : List Bytes) :
    (init nick).AllUsers fun _ user => Consistent told user := allUsers_init nick _

end Lists

namespace Irc

/-! ## Runs -/

/-- The identities that users are stored with at an input. -/
def identsTold (c : Irc) (i : Input) : List Bytes := (c.inputOps i).filterMap ListOp.ident?

/-- What a connection does with an input, with the identities received so far. -/
def hear (s : Irc × List Bytes) (i : Input) : Option (Irc × List Bytes) :=
  (s.1.serve i).map fun c => (c, s.2 ++ s.1.identsTold i)

/-- The inputs all of whose operations keep the copies in the records in step. -/
def IdentInput (s : Irc × List Bytes) (i : Input) : Prop :=
  ∀ op ∈ s.1.inputOps i, s.1.lists.IdentOp op

instance (s : Irc × List Bytes) (i : Input) : Decidable (IdentInput s i) :=
  inferInstanceAs (Decidable (∀ op ∈ s.1.inputOps i, s.1.lists.IdentOp op))

/-- **The identities of the users.** In every state reached by inputs whose operations keep the
copies in step, the identity of every record is its nick, user and host put together; user and host
are empty if no `user@host` has been received for the nick; and they contain no decorated nick.

**Proof sketch.** Each operation keeps all records consistent with the identities received, those
of the present input included. The condition is checked on the state before the input, since no
operation disturbs the condition of a later one. -/
theorem run_consistent {c₀ c : Irc} {told : List Bytes} {is : List Input} (hc₀ : Started c₀)
    (h : Run (Under (Fun hear) IdentInput) (c₀, []) is (c, told)) (chan : Bytes) :
    ∀ e ∈ (c.getChanuserlist chan).entries,
      e.2.ident = e.2.nick ++ bytes "!" ++ e.2.user ++ bytes "@" ++ e.2.host ∧
      ((∀ user host, e.2.nick ++ bytes "!" ++ user ++ bytes "@" ++ host ∉ told) →
        e.2.user = [] ∧ e.2.host = []) ∧
      ¬ Decorates e.2.nick e.2.user ∧ ¬ Decorates e.2.nick e.2.host := by
  have hinit : c₀.lists.ChansOk ∧ c₀.lists.AllUsers fun _ user => Consistent [] user := by
    obtain ⟨nick, hnick⟩ := hc₀.lists_eq
    rw [hnick]
    exact ⟨Lists.chansOk_init nick, Lists.consistent_lists_init nick []⟩
  have hrun : c.lists.ChansOk ∧ c.lists.AllUsers fun _ user => Consistent told user := by
    refine h.preserves (I := fun s => s.1.lists.ChansOk ∧
      s.1.lists.AllUsers fun _ user => Consistent s.2 user) ?_ hinit
    rintro s i s' ⟨hchans, husers⟩ ⟨hhear, hops⟩
    obtain ⟨c', hserve, rfl⟩ := Option.map_eq_some_iff.mp hhear
    set told' := s.2 ++ s.1.identsTold i
    have hnow : s.1.lists.AllUsers fun _ user => Consistent told' user :=
      fun x => (husers x).imp fun _ _ huser => huser.mono (List.subset_append_left _ _)
    refine serve_preserves
      (C := fun l op => (∀ ident, op.ident? = some ident → ident ∈ told') ∧ l.IdentOp op)
      (I := fun l => l.ChansOk ∧ l.AllUsers fun _ user => Consistent told' user)
      (fun l op hl hvalid hop => ⟨hl.1.apply hvalid, Lists.consistent_apply hl.2 hvalid hop.1 hop.2⟩)
      (fun l a b hab ha hb => ⟨hb.1, Lists.IdentOp.together hab ha.2 hb.2⟩) hchans.distinct hserve
      (fun op hop => ⟨fun ident hident => ?_, hops op hop⟩) ⟨hchans, hnow⟩
    exact List.mem_append_right _ (List.mem_filterMap.mpr ⟨op, hop, hident⟩)
  intro e he
  have hcons := hrun.2 chan e he
  have hput : e.2.nick ++ bytes "!" ++ e.2.user ++ bytes "@" ++ e.2.host =
      e.2.nick ++ ('!' : Byte) :: (e.2.user ++ ('@' : Byte) :: e.2.host) := by
    simp [bytes]
  refine ⟨hcons.ident_eq.trans hput.symm, fun hnone => ?_, hcons.user_plain, hcons.host_plain⟩
  refine hcons.received.resolve_right fun hmem => hnone e.2.user e.2.host ?_
  rw [hput, ← hcons.ident_eq]
  exact hmem

/-- A user joins the channel of the bot and changes the nick. -/
def renameRun : List Input :=
  [.line 0 (bytes ":bot!u@h JOIN #c"), .line 1 (bytes ":foo!u@h JOIN #c"),
    .line 2 (bytes ":foo!u@h NICK bar")]

/-- **The identity keeps the old nick** after a change of nick. -/
theorem run_not_consistent :
    ∃ c₀ c, Started c₀ ∧ Run (Fun serve) c₀ renameRun c ∧
      ∃ e ∈ (c.getChanuserlist (bytes "#c")).entries,
        e.2.ident ≠ e.2.nick ++ bytes "!" ++ e.2.user ++ bytes "@" ++ e.2.host := by
  refine ⟨started (bytes "bot"), _, started_started _, Run.of_foldlM rfl, ?_⟩
  exact ⟨(bytes "bar", ⟨⟨bytes "foo!u@h", bytes "bar", bytes "u", bytes "h"⟩, []⟩),
    List.mem_singleton.mpr rfl, by decide⟩

/-- The identities after another user has joined. -/
theorem run_consistent_joined :
    ∃ s, Run (Under (Fun hear) IdentInput) (started (bytes "bot"), []) (renameRun.take 2) s ∧
      ∀ e ∈ (s.1.getChanuserlist (bytes "#c")).entries,
        e.2.ident = e.2.nick ++ bytes "!" ++ e.2.user ++ bytes "@" ++ e.2.host := by
  have hfold : ((renameRun.take 2).foldlM (fun s i => if IdentInput s i then hear s i else none)
      (started (bytes "bot"), [])).isSome = true := by
    decide +kernel
  obtain ⟨s, hs⟩ := Option.isSome_iff_exists.mp hfold
  have hrun := Run.under_of_foldlM hs
  exact ⟨s, hrun, fun e he => (run_consistent (started_started _) hrun _ e he).1⟩

end Irc

end Meowbot
