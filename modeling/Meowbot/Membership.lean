import Meowbot.UserTable

set_option relaxedAutoImplicit false
set_option autoImplicit false

/-!
# Who is in which channel

What the messages of the server say about the users of the channels, and what the operations on
the lists make of it. Names are compared in lower case.

## Main definitions

* `Meowbot.Members` — a relation between channels and the nicks in them.
* `Meowbot.Change`, `Meowbot.Members.after` — what a message says, and the members after it.
* `Meowbot.Lists.members` — the members according to the user lists.

## Main results

* `Meowbot.Lists.members_addUser`, `Lists.members_delUser`, `Lists.members_delUsers`,
  `Lists.members_renameUser` — the members after an operation.
-/

namespace Meowbot

/-- Who is in which channel: channels and nicks. -/
abbrev Members := Bytes → Bytes → Prop

/-- What a message says about users, without the way in which the source finds out. Channels and
nicks are compared up to case. -/
inductive Change where
  /-- A nick is in a channel. -/
  | joins (chan nick : Bytes)
  /-- A nick is no longer in a channel. -/
  | leaves (chan nick : Bytes)
  /-- A nick is no longer in any channel. -/
  | quits (nick : Bytes)
  /-- A new nick is in the channels in which the old one was, and the old one is not. -/
  | renames (nick newnick : Bytes)
  deriving DecidableEq

namespace Members

/-- The members of one channel after a change of nick there. -/
def renamed (S : Members) (nick newnick : Bytes) : Members := fun x n =>
  (S x n ∧ ircStrlower n ≠ ircStrlower nick) ∨ (S x nick ∧ ircStrlower n = ircStrlower newnick)

/-- The members after a change. -/
def after (S : Members) : Change → Members
  | .joins chan nick => fun x n =>
    S x n ∨ (ircStrlower x = ircStrlower chan ∧ ircStrlower n = ircStrlower nick)
  | .leaves chan nick => fun x n =>
    S x n ∧ ¬ (ircStrlower x = ircStrlower chan ∧ ircStrlower n = ircStrlower nick)
  | .quits nick => fun x n => S x n ∧ ircStrlower n ≠ ircStrlower nick
  | .renames nick newnick => S.renamed nick newnick

/-- The members after a sequence of changes, of which the last about a nick in a channel counts. -/
def afterAll (S : Members) (changes : List Change) : Members := changes.foldl after S

/-- The last change comes last. -/
lemma afterAll_concat (S : Members) (changes : List Change) (change : Change) :
    S.afterAll (changes ++ [change]) = (S.afterAll changes).after change := by
  rw [afterAll, List.foldl_append]
  rfl

end Members

/-- The nick in a decorated nick. -/
def bareNick (nick : Bytes) : Bytes := (splitNickUsermode nick).2

namespace Lists

/-- The members according to the user lists. -/
def members (l : Lists) : Members := fun x n => (l.usersOf x).contains n = true

/-- Whether a nick is a member does not depend on its spelling. -/
lemma members_congr (l : Lists) (x : Bytes) {n n' : Bytes} (h : ircStrlower n = ircStrlower n') :
    l.members x n ↔ l.members x n' := by
  simp only [members, FoldMap.contains, FoldMap.find?_congr _ h]

/-- The members after a change of the users of one channel. -/
lemma members_mapUsers (l : Lists) (chan : Bytes) (f : StrMap IrcUser → StrMap IrcUser)
    (x n : Bytes) :
    (l.mapUsers chan f).members x n ↔
      if ircStrlower x = ircStrlower chan then (f (l.usersOf x)).contains n = true
      else l.members x n := by
  unfold members
  rw [usersOf_mapUsers]
  split_ifs with h
  · rw [l.usersOf_congr h]
  · rfl

/-- The members after a user has been added. -/
lemma members_addUser {l : Lists} {chan nick : Bytes} (hchan : chan ≠ []) (hnick : nick ≠ [])
    (ident x n : Bytes) :
    (l.addUser chan nick ident).members x n ↔ l.members x n ∨
      (ircStrlower x = ircStrlower chan ∧ ircStrlower n = ircStrlower (bareNick nick)) := by
  rw [addUser, if_neg (not_or.mpr ⟨hchan, hnick⟩), members_mapUsers]
  split_ifs with h
  · rw [FoldMap.contains_update, or_comm]
    simp only [h, true_and, members, bareNick]
  · simp only [h, false_and, or_false]

/-- The members after a user has been removed. -/
lemma members_delUser {l : Lists} {chan nick : Bytes} (hchan : chan ≠ []) (hnick : nick ≠ [])
    (x n : Bytes) :
    (l.delUser chan nick).members x n ↔ l.members x n ∧
      ¬ (ircStrlower x = ircStrlower chan ∧ ircStrlower n = ircStrlower (bareNick nick)) := by
  rw [delUser, if_neg (not_or.mpr ⟨hchan, hnick⟩)]
  by_cases hin : (l.usersOf chan).contains (splitNickUsermode nick).2
  · rw [if_pos hin, members_mapUsers]
    split_ifs with h
    · rw [FoldMap.contains_erase, and_comm]
      simp only [h, true_and, members, bareNick]
    · simp only [h, false_and, not_false_eq_true, and_true]
  · rw [if_neg hin]
    refine ⟨fun h => ⟨h, ?_⟩, fun h => h.1⟩
    rintro ⟨hx, hn⟩
    rw [l.members_congr x hn, members, l.usersOf_congr hx] at h
    exact hin h

/-- The members after a user has been removed from some channels. -/
lemma members_delUsers {chans : List Bytes} (hchans : ∀ chan ∈ chans, chan ≠ []) {nick : Bytes}
    (hnick : nick ≠ []) (l : Lists) (x n : Bytes) :
    ((chans.map fun chan => ListOp.delUser chan nick).foldl apply l).members x n ↔
      l.members x n ∧ ¬ ((∃ chan ∈ chans, ircStrlower chan = ircStrlower x) ∧
        ircStrlower n = ircStrlower (bareNick nick)) := by
  induction chans generalizing l with
  | nil => simp
  | cons chan chans ih =>
    have hhead := hchans chan List.mem_cons_self
    have htail : ∀ c ∈ chans, c ≠ [] := fun c hc => hchans c (List.mem_cons_of_mem _ hc)
    rw [List.map_cons, List.foldl_cons, ih htail]
    change (l.delUser chan nick).members x n ∧ _ ↔ _
    rw [members_delUser hhead hnick]
    simp only [List.mem_cons, exists_eq_or_imp, eq_comm (a := ircStrlower x)]
    rw [or_and_right, not_or, and_assoc]

/-- What the removal of a user keeps, the removal from some channels keeps. -/
lemma foldl_delUsers {I : Lists → Prop} {nick : Bytes}
    (hdel : ∀ l chan, I l → I (l.delUser chan nick)) (chans : List Bytes) {l : Lists} (hl : I l) :
    I ((chans.map fun chan => ListOp.delUser chan nick).foldl apply l) := by
  induction chans generalizing l with
  | nil => exact hl
  | cons chan chans ih => exact ih (hdel l chan hl)

/-- The members after a user who is there has been renamed in a channel.

**Proof sketch.** The members after a removal and an addition are known (`members_delUser`,
`members_addUser`); in this channel one nick is replaced by the other, whatever stands in front of
them. -/
lemma members_renameUser {l : Lists} (hl : l.ModesOk) {chan nick newnick : Bytes}
    (hchan : chan ≠ []) (hnick : nick ≠ []) (hnewnick : newnick ≠ [])
    (hin : l.members chan (bareNick nick)) (ident x n : Bytes) :
    ((l.delUser chan nick).addUser chan (l.decorated chan nick newnick) ident).members x n ↔
      if ircStrlower x = ircStrlower chan then
        l.members.renamed (bareNick nick) (bareNick newnick) x n
      else l.members x n := by
  have hdecorated : l.decorated chan nick newnick ≠ [] := by
    unfold decorated
    split
    · simp [hnewnick]
    · exact hnewnick
  have hbare : bareNick (l.decorated chan nick newnick) = bareNick newnick :=
    hl.splitNickUsermode_decorated chan nick newnick
  rw [members_addUser hchan hdecorated, members_delUser hchan hnick, hbare]
  split_ifs with hx
  · have hin' : l.members x (bareNick nick) := by
      rw [members, l.usersOf_congr hx]
      exact hin
    simp only [hx, true_and, Members.renamed, hin', ne_eq]
  · simp only [hx, false_and, not_false_eq_true, and_true, or_false]

end Lists

end Meowbot
