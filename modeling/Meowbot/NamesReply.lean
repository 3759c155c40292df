import Mathlib.Data.Bool.AllAny
import Meowbot.ListOps

set_option relaxedAutoImplicit false
set_option autoImplicit false

/-!
# Replies to NAMES

A server lists the users of a channel in any number of `353` lines and closes the list with one
`366` line; lines about other channels may come in between. The first line of a reply empties the
user list of its channel, so that the list holds the users of the reply when it ends. A reply that
has no line at all does not empty the list, and replies for channels whose names start with neither
`#` nor `&` are ignored.

## Main definitions

* `Meowbot.ListedName` — a name of a reply; `Meowbot.words` — the names of a line.
* `Meowbot.Irc.NamesStep` — the lines of a reply, and those about other channels.

## Main results

* `Meowbot.Irc.names_refresh` — the user list after a reply.
-/

namespace Meowbot

open Runs

/-! ## The names of a line -/

/-- A name of a NAMES reply: mode characters, a nick, and perhaps the user and host of the nick. The
bytes that end a name or a part of it do not occur in the parts. -/
structure ListedName where
  modes : Bytes
  nick : Bytes
  mask : Option (Bytes × Bytes)
  modes_prefix : ∀ c ∈ modes, isModeChar c
  nick_ne_nil : nick ≠ []
  nick_head : ∀ c ∈ nick.head?, ¬ isModeChar c
  nick_bytes : ∀ c ∈ nick, c ≠ (' ' : Byte) ∧ c ≠ ('!' : Byte) ∧ c ≠ LF
  mask_bytes : ∀ m ∈ mask, (' ' : Byte) ∉ m.1 ∧ (' ' : Byte) ∉ m.2

namespace ListedName

/-- The nick with its mode characters. -/
def decorated (n : ListedName) : Bytes := n.modes ++ n.nick

/-- The user and host, as they follow the nick. -/
def maskText (n : ListedName) : Bytes :=
  match n.mask with
  | some (user, host) => ('!' : Byte) :: (user ++ ('@' : Byte) :: host)
  | none => []

/-- The name as it stands in a line. -/
def text (n : ListedName) : Bytes := n.decorated ++ n.maskText

lemma decorated_ne_nil (n : ListedName) : n.decorated ≠ [] := by
  simp [decorated, n.nick_ne_nil]

/-- The decorated nick has no `!`. -/
lemma bang_notMem_decorated (n : ListedName) : ∀ c ∈ n.decorated, decide (c ≠ ('!' : Byte)) := by
  intro c hc
  rw [decide_eq_true_eq]
  rcases List.mem_append.mp hc with hc | hc
  · rintro rfl
    exact absurd (n.modes_prefix _ hc) (by decide)
  · exact (n.nick_bytes c hc).2.1

/-- The decorated nick is what stands in front of the first `!`. -/
lemma takeWhile_text (n : ListedName) :
    n.text.takeWhile (fun c => c ≠ ('!' : Byte)) = n.decorated := by
  rw [text, List.takeWhile_append_of_pos n.bang_notMem_decorated, maskText]
  rcases n.mask with _ | ⟨user, host⟩ <;> simp

/-- The decorated nick is split into the mode characters and the nick. -/
lemma splitNickUsermode_decorated (n : ListedName) :
    splitNickUsermode n.decorated = (n.modes, n.nick) := by
  have hhead : n.nick.takeWhile isModeChar = [] ∧ n.nick.dropWhile isModeChar = n.nick := by
    have hfirst := n.nick_head
    generalize n.nick = nick at hfirst ⊢
    rcases nick with _ | ⟨c, cs⟩
    · exact ⟨rfl, rfl⟩
    · have hc := hfirst c rfl
      exact ⟨List.takeWhile_cons_of_neg hc, List.dropWhile_cons_of_neg hc⟩
  have hdot : n.nick.takeWhile dot = n.nick := by
    rw [List.takeWhile_eq_self_iff]
    intro c hc
    exact decide_eq_true (n.nick_bytes c hc).2.2
  rw [splitNickUsermode_eq, decorated, List.takeWhile_append_of_pos n.modes_prefix,
    List.dropWhile_append_of_pos n.modes_prefix, hhead.1, hhead.2, hdot, List.append_nil]

/-- The operation for a name adds its decorated nick. -/
lemma nameOp_text (n : ListedName) (chan : Bytes) :
    nameOp true chan n.text = .addUser chan n.decorated (IrcIdent.setIdent n.text).ident := by
  rw [nameOp, if_pos rfl, reModeAndNick_exec, n.takeWhile_text, if_neg n.decorated_ne_nil]

end ListedName

/-- The names of a line: what stands between its spaces. -/
def words (s : Bytes) : List Bytes := (s.splitOn (' ' : Byte)).filter (· ≠ [])

/-- The empty parts in a line, which come from repeated spaces, aside, the loop of the handler
splits it at its spaces.

**Proof sketch.** By induction on the line. At a space the word so far is a part, as it is in the
split at the spaces; the parts that are empty are filtered out on both sides. -/
lemma filter_splitNames (arg s : Bytes) :
    (splitNames arg s).filter (· ≠ []) =
      ((s.splitOn (' ' : Byte)).modifyHead (arg ++ ·)).filter (· ≠ []) := by
  induction s generalizing arg with
  | nil => simp [splitNames, List.splitOn_nil]
  | cons p ps ih =>
    rw [splitNames, List.splitOn_cons_eq_if_modifyHead]
    by_cases hp : p = (' ' : Byte)
    · have hrest : (if ps = [] then [] else splitNames [] ps).filter (· ≠ []) =
          (ps.splitOn (' ' : Byte)).filter (· ≠ []) := by
        by_cases hps : ps = []
        · simp [hps, List.splitOn_nil]
        · rw [if_neg hps, ih]
          cases ps.splitOn (' ' : Byte) <;> rfl
      rw [if_pos hp, if_pos (beq_iff_eq.mpr hp), List.modifyHead_cons,
        List.append_nil, List.filter_cons, List.filter_cons, hrest]
    · rw [if_neg hp, if_neg (fun h => hp (beq_iff_eq.mp h)), ih,
        List.modifyHead_modifyHead]
      congr 2
      funext x
      simp

/-- The loop of the handler finds the names of a line. -/
lemma filter_splitNames_nil (s : Bytes) : (splitNames [] s).filter (· ≠ []) = words s := by
  rw [filter_splitNames, words]
  cases s.splitOn (' ' : Byte) <;> rfl

/-! ## What the names do to the list -/

/-- The users of a list as a reply to NAMES names them: the key, the nick and the modes. -/
def userView (users : StrMap IrcUser) : List (Bytes × Bytes × Bytes) :=
  users.entries.map fun e => (e.1, e.2.nick, e.2.chanmode)

/-- A name as it should be in a list. -/
def ListedName.view (n : ListedName) : Bytes × Bytes × Bytes := (n.nick, n.nick, n.modes)

/-- A user is stored with the nick and the modes of a decorated nick. -/
lemma storeUser_listed (ident decorated : Bytes) (user : Option IrcUser) :
    (Irc.storeUser ident decorated user).nick = (splitNickUsermode decorated).2 ∧
      (Irc.storeUser ident decorated user).chanmode = (splitNickUsermode decorated).1 :=
  ⟨rfl, rfl⟩

namespace Lists

/-- A name that is not in the list yet is added at its end. -/
lemma userView_addName {l : Lists} {chan : Bytes} (hchan : chan ≠ []) {n : ListedName}
    (habsent : ∀ v ∈ userView (l.usersOf chan), ircStrlower v.1 ≠ ircStrlower n.nick) :
    userView ((l.apply (nameOp true chan n.text)).usersOf chan) =
      userView (l.usersOf chan) ++ [n.view] := by
  have habsent' : ∀ e ∈ (l.usersOf chan).entries, ircStrlower e.1 ≠ ircStrlower n.nick :=
    fun e he => habsent _ (List.mem_map_of_mem (f := fun e => (e.1, e.2.nick, e.2.chanmode)) he)
  rw [n.nameOp_text]
  change userView ((l.addUser chan _ _).usersOf chan) = _
  rw [addUser, if_neg (not_or.mpr ⟨hchan, n.decorated_ne_nil⟩), usersOf_mapUsers, if_pos rfl,
    n.splitNickUsermode_decorated]
  unfold userView
  rw [FoldMap.entries_update_of_absent habsent', List.map_append]
  simp only [List.map_cons, List.map_nil, (storeUser_listed _ _ _).1, (storeUser_listed _ _ _).2,
    n.splitNickUsermode_decorated]
  rfl

/-- An empty name is not added. -/
lemma apply_nameOp_nil (l : Lists) (chan : Bytes) : l.apply (nameOp true chan []) = l := by
  change l.addUser chan [] _ = l
  rw [addUser, if_pos (.inr rfl)]

/-- **The names of a line** are added at the end of the list, if no nick is in it already or named
twice.

**Proof sketch.** By induction on the parts of the line. An empty part adds nobody; any other one is
a name whose nick is not in the list yet, so it is added at the end. -/
lemma userView_addNames {l : Lists} {chan : Bytes} (hchan : chan ≠ []) {args : List Bytes}
    {ns : List ListedName} (hargs : args.filter (· ≠ []) = ns.map ListedName.text)
    (hnodup : ((userView (l.usersOf chan) ++ ns.map ListedName.view).map
      fun v => ircStrlower v.1).Nodup) :
    userView (((args.map (nameOp true chan)).foldl apply l).usersOf chan) =
      userView (l.usersOf chan) ++ ns.map ListedName.view := by
  induction args generalizing l ns with
  | nil =>
    obtain rfl := List.map_eq_nil_iff.mp hargs.symm
    rw [List.map_nil, List.map_nil, List.append_nil]
    rfl
  | cons arg args ih =>
    rw [List.map_cons, List.foldl_cons]
    by_cases harg : arg = []
    · subst harg
      rw [apply_nameOp_nil]
      exact ih hargs hnodup
    · rw [List.filter_cons_of_pos (by simpa using harg)] at hargs
      rcases ns with _ | ⟨n, ns⟩
      · cases hargs
      · obtain ⟨rfl, hrest⟩ := List.cons.inj hargs
        have hview : userView ((l.apply (nameOp true chan n.text)).usersOf chan) =
            userView (l.usersOf chan) ++ [n.view] := by
          refine userView_addName hchan fun v hv heq => ?_
          rw [List.map_append, List.nodup_append] at hnodup
          exact hnodup.2.2 _ (List.mem_map_of_mem hv) _
            (List.mem_map_of_mem (List.mem_map_of_mem List.mem_cons_self)) heq
        have hmove : userView (l.usersOf chan) ++ (n :: ns).map ListedName.view =
            userView (l.usersOf chan) ++ [n.view] ++ ns.map ListedName.view := by
          rw [List.append_assoc]
          rfl
        rw [hmove] at hnodup ⊢
        rw [← hview] at hnodup ⊢
        exact ih hrest hnodup

/-- The names of a line about another channel leave the list alone. -/
lemma usersOf_addNames_of_ne {chan x : Bytes} (h : ircStrlower x ≠ ircStrlower chan)
    (namesxOn : Bool) (args : List Bytes) (l : Lists) :
    ((args.map (nameOp namesxOn chan)).foldl apply l).usersOf x = l.usersOf x := by
  induction args generalizing l with
  | nil => rfl
  | cons arg args ih =>
    rw [List.map_cons, List.foldl_cons, ih]
    obtain ⟨nick, ident, hop, -⟩ := nameOp_eq namesxOn chan arg
    rw [hop]
    exact usersOf_addUser_of_ne l h nick ident

end Lists

namespace Irc

/-! ## The lines of a reply -/

/-- A line that comes while a reply for a channel is sent. -/
inductive ReplyLine where
  /-- A `353` line of the reply, with the names in it. -/
  | listed (i : Input) (names : List ListedName)
  /-- A `353` or `366` line about another channel. -/
  | other (i : Input)

/-- The names that a line adds to the reply. -/
def ReplyLine.names : ReplyLine → List ListedName
  | .listed _ names => names
  | .other _ => []

/-- Whether a line belongs to the reply. -/
def ReplyLine.isListed : ReplyLine → Bool
  | .listed _ _ => true
  | .other _ => false

/-- A message is a line of a reply for a channel that holds some names. -/
def Lists353 (chan : Bytes) (names : List ListedName) (m : Message) : Prop :=
  m.cmd = bytes "353" ∧ 4 ≤ m.nparam ∧ m.arg 2 = chan ∧
    words (m.arg 3) = names.map ListedName.text

/-- A message is a line or the end of a reply for another channel. -/
def Elsewhere (chan : Bytes) (m : Message) : Prop :=
  (m.cmd = bytes "353" ∧ ircStrlower (m.arg 2) ≠ ircStrlower chan) ∨
    (m.cmd = bytes "366" ∧ ircStrlower (m.arg 1) ≠ ircStrlower chan)

/-- The end of a reply for a channel. -/
def Ends366 (chan : Bytes) (m : Message) : Prop :=
  m.cmd = bytes "366" ∧ 2 ≤ m.nparam ∧ m.arg 1 = chan

/-- A line is received while a reply for a channel is sent. -/
def NamesStep (chan : Bytes) (c : Irc) : ReplyLine → Irc → Prop
  | .listed i names, c' => c.serve i = some c' ∧ ∃ m, c.message i = some m ∧ Lists353 chan names m
  | .other i, c' => c.serve i = some c' ∧ ∃ m, c.message i = some m ∧ Elsewhere chan m

/-- No reply to WHO is in progress for a channel and the server sends all mode characters; a reply
to NAMES has been started or not. -/
structure Replying (chan : Bytes) (begun : Bool) (c : Irc) : Prop where
  namesxOn : c.srvinfo.namesxOn = true
  who : c.whoReceiving chan = false
  names : c.namesReceiving chan = begun

/-- Adding a name changes the users only. -/
lemma addName_frame (c : Irc) (chan arg : Bytes) :
    ∃ users, addName c chan arg = { c with chanUsers := users } := by
  have hadd : ∀ nick ident, ∃ users,
      c.addToChanuserlist chan nick ident = { c with chanUsers := users } := by
    intro nick ident
    unfold addToChanuserlist
    split_ifs
    · exact ⟨_, rfl⟩
    · exact ⟨_, rfl⟩
  unfold addName
  split_ifs
  · exact hadd _ _
  · exact hadd _ _

/-- Adding the names of a line changes the users only. -/
lemma namesLoop_frame (chan : Bytes) (c : Irc) (arg s : Bytes) :
    ∃ users, (namesLoop chan c arg s).1 = { c with chanUsers := users } := by
  induction s generalizing c arg with
  | nil => exact addName_frame c chan arg
  | cons p ps ih =>
    rw [namesLoop]
    split_ifs
    · exact addName_frame c chan arg
    · obtain ⟨users, hc⟩ := addName_frame c chan arg
      rw [hc]
      exact ih _ _
    · exact ih _ _

/-- **What a `353` line does**: it is ignored, or it marks its channel and changes the users.

**Proof sketch.** By the tests of the handler: the number of its parameters, the first byte of the
channel, and whether a WHO reply is being received. -/
lemma onNamesReply_cases (c : Irc) (m : Message) :
    ((m.nparam < 4 ∨ isChanName (m.arg 2) = false ∨ c.whoReceiving (m.arg 2) = true) ∧
      onNamesReply c m = .goOn c) ∨
    ((onNamesReply c m).flow = .next ∧ ∃ users, (onNamesReply c m).irc =
      { c with
        chanUsers := users, namesReceiving := Function.update c.namesReceiving (m.arg 2) true }) := by
  unfold onNamesReply
  by_cases hn : m.nparam < 4
  · exact .inl ⟨.inl hn, if_pos hn⟩
  rw [if_neg hn]
  dsimp only
  by_cases hchan : isChanName (m.arg 2) = true
  · rw [if_pos hchan]
    by_cases hwho : c.whoReceiving (m.arg 2) = true
    · exact .inl ⟨.inr (.inr hwho), if_pos hwho⟩
    · refine .inr ?_
      rw [if_neg hwho]
      refine ⟨rfl, ?_⟩
      by_cases hnames : c.namesReceiving (m.arg 2) = true
      · obtain ⟨users, hloop⟩ := namesLoop_frame (m.arg 2) c [] (cstr (m.arg 3))
        rw [if_pos hnames, hloop, ← hnames, Function.update_eq_self]
        exact ⟨users, rfl⟩
      · rw [if_neg hnames]
        split_ifs
        · exact namesLoop_frame (m.arg 2) _ [] (cstr (m.arg 3))
        · exact namesLoop_frame (m.arg 2) _ [] (cstr (m.arg 3))
  · exact .inl ⟨.inr (.inl (by simpa using hchan)), if_neg hchan⟩

/-- A served `353` line has been handled as one. -/
lemma serve_namesReply {c c' : Irc} {i : Input} {m : Message} (h : c.serve i = some c')
    (hm : c.message i = some m) (hcmd : m.cmd = bytes "353") :
    ∃ b events, c' = (onNamesReply { c with isLineConverted := b, events } m).irc := by
  obtain ⟨now, b, events, r, hr, rfl⟩ := serve_message h hm
  have hofBytes : Command.ofBytes m.cmd = .namesReply := by
    rw [hcmd]
    rfl
  rw [hofBytes] at hr
  obtain rfl := Except.ok.inj hr
  refine ⟨b, events, ?_⟩
  have hflow : (onNamesReply { c with isLineConverted := b, events } m).flow = .next := by
    rcases onNamesReply_cases { c with isLineConverted := b, events } m with ⟨-, h⟩ | ⟨h, -⟩
    · rw [h]
      rfl
    · exact h
  rw [afterwards, hflow]

/-- A served `366` line has been handled as one. -/
lemma serve_endOfNames {c c' : Irc} {i : Input} {m : Message} (h : c.serve i = some c')
    (hm : c.message i = some m) (hcmd : m.cmd = bytes "366") :
    ∃ b events, c' = onEndOfNames { c with isLineConverted := b, events } m := by
  obtain ⟨now, b, events, r, hr, rfl⟩ := serve_message h hm
  have hofBytes : Command.ofBytes m.cmd = .endOfNames := by
    rw [hcmd]
    rfl
  rw [hofBytes] at hr
  obtain rfl := Except.ok.inj hr
  exact ⟨b, events, rfl⟩

/-- The operations of the end of a reply. -/
lemma inputOps_endOfNames {c : Irc} {i : Input} {m : Message} (hm : c.message i = some m)
    (hcmd : m.cmd = bytes "366") : c.inputOps i = [] := by
  rw [inputOps_of_message hm, hcmd]
  rfl

/-- The operations of a line of a reply. -/
lemma inputOps_namesReply {c : Irc} {i : Input} {m : Message} (hm : c.message i = some m)
    (hcmd : m.cmd = bytes "353") : c.inputOps i = c.listOps m .namesReply := by
  rw [inputOps_of_message hm, hcmd]
  rfl

/-- The parameters of a line received contain no NUL. -/
lemma zero_notMem_arg_of_message {c : Irc} {i : Input} {m : Message} (hm : c.message i = some m)
    (k : Fin 32) : 0 ∉ m.arg k := by
  cases i with
  | line now line => exact Message.zero_notMem_arg hm k
  | quitDone nick => cases hm

/-- **A line of the reply** puts its names at the end of the list, which the first line empties.

**Proof sketch.** The line has its parameters and is about a channel with a name, so it is not
ignored. The first line of a reply clears the list; the names are then added at the end
(`userView_addNames`). -/
lemma Replying.listed {chan : Bytes} {begun : Bool} {c c' : Irc} {i : Input}
    {names : List ListedName} {m : Message} (hc : Replying chan begun c)
    (hchan : isChanName chan = true) (h : c.serve i = some c') (hm : c.message i = some m)
    (hlists : Lists353 chan names m)
    (hnodup : (((if begun then userView (c.lists.usersOf chan) else []) ++
      names.map ListedName.view).map fun v => ircStrlower v.1).Nodup) :
    Replying chan true c' ∧ userView (c'.lists.usersOf chan) =
      (if begun then userView (c.lists.usersOf chan) else []) ++ names.map ListedName.view := by
  obtain ⟨hcmd, hn, harg, hwords⟩ := hlists
  have hnil : chan ≠ [] := by
    rintro rfl
    cases hchan
  have hn' : ¬ m.nparam < 4 := by omega
  constructor
  · obtain ⟨b, events, rfl⟩ := serve_namesReply h hm hcmd
    rcases onNamesReply_cases { c with isLineConverted := b, events } m with
      ⟨hskip, -⟩ | ⟨-, users, husers⟩
    · rw [harg, hchan] at hskip
      have hwho := hc.who
      simp [hn', hwho] at hskip
    · rw [husers, harg]
      exact ⟨hc.namesxOn, hc.who, Function.update_self _ _ _⟩
  · have hargs : (splitNames [] (cstr (m.arg 3))).filter (· ≠ []) =
        names.map ListedName.text := by
      rw [filter_splitNames_nil, cstr_eq_self (zero_notMem_arg_of_message hm 3), hwords]
    have hops : c.inputOps i = (if begun then [] else [.clearUsers chan]) ++
        (splitNames [] (cstr (m.arg 3))).map (nameOp true chan) := by
      rw [inputOps_namesReply hm hcmd]
      simp only [listOps, if_neg hn', harg, if_pos hchan, hc.who, hc.names, hc.namesxOn]
      cases begun <;> rfl
    rw [serve_lists h, hops, List.foldl_append]
    cases begun with
    | true => exact Lists.userView_addNames hnil hargs hnodup
    | false =>
      have hempty : userView ((c.lists.clearUsers chan).usersOf chan) = [] := by
        rw [Lists.clearUsers, Lists.usersOf_mapUsers, if_pos rfl]
        rfl
      have hadd := Lists.userView_addNames (l := c.lists.clearUsers chan) hnil hargs
      rw [hempty] at hadd
      exact hadd hnodup

/-- **A line about another channel** changes neither the list nor the progress of the reply.

**Proof sketch.** A line of a list of names changes the users and the mark of its own channel only,
and so does the end of such a list. -/
lemma Replying.other {chan : Bytes} {begun : Bool} {c c' : Irc} {i : Input} {m : Message}
    (hc : Replying chan begun c) (h : c.serve i = some c') (hm : c.message i = some m)
    (hother : Elsewhere chan m) :
    Replying chan begun c' ∧ c'.lists.usersOf chan = c.lists.usersOf chan := by
  rcases hother with ⟨hcmd, hne⟩ | ⟨hcmd, hne⟩
  · have hne' : chan ≠ m.arg 2 := fun heq => hne (heq ▸ rfl)
    constructor
    · obtain ⟨b, events, rfl⟩ := serve_namesReply h hm hcmd
      rcases onNamesReply_cases { c with isLineConverted := b, events } m with
        ⟨-, hskip⟩ | ⟨-, users, husers⟩
      · rw [hskip]
        exact ⟨hc.namesxOn, hc.who, hc.names⟩
      · rw [husers]
        exact ⟨hc.namesxOn, hc.who, (Function.update_of_ne hne' _ _).trans hc.names⟩
    · rw [serve_lists h, inputOps_namesReply hm hcmd]
      simp only [listOps]
      split_ifs
      · rfl
      · rfl
      · exact Lists.usersOf_addNames_of_ne (Ne.symm hne) _ _ _
      · rw [List.foldl_append, Lists.usersOf_addNames_of_ne (Ne.symm hne)]
        change (c.lists.clearUsers (m.arg 2)).usersOf chan = _
        rw [Lists.clearUsers, Lists.usersOf_mapUsers, if_neg (Ne.symm hne)]
      · exact Lists.usersOf_addNames_of_ne (Ne.symm hne) _ _ _
      · rfl
  · have hne' : chan ≠ m.arg 1 := fun heq => hne (heq ▸ rfl)
    constructor
    · obtain ⟨b, events, rfl⟩ := serve_endOfNames h hm hcmd
      unfold onEndOfNames
      split_ifs
      · exact ⟨hc.namesxOn, hc.who, hc.names⟩
      · exact ⟨hc.namesxOn, hc.who, (Function.update_of_ne hne' _ _).trans hc.names⟩
      · exact ⟨hc.namesxOn, hc.who, hc.names⟩
    · rw [serve_lists h, inputOps_endOfNames hm hcmd]
      rfl

/-! ## A whole reply -/

/-- **The lines of a reply** leave in the list the names received so far.

**Proof sketch.** By induction on the lines. A line of the reply adds its names, whose nicks are
different from those before as all nicks of the reply are; a line about another channel changes
nothing here. -/
lemma Replying.run {chan : Bytes} {c c' : Irc} {ls : List ReplyLine} (hc : Replying chan false c)
    (hchan : isChanName chan = true) (h : Run (NamesStep chan) c ls c')
    (hnodup : ((ls.flatMap ReplyLine.names).map fun n => ircStrlower n.nick).Nodup) :
    Replying chan (ls.any ReplyLine.isListed) c' ∧
      ((if ls.any ReplyLine.isListed then userView (c'.lists.usersOf chan) else []) =
        (ls.flatMap ReplyLine.names).map ListedName.view) := by
  induction h with
  | nil => exact ⟨hc, rfl⟩
  | @snoc c₁ c₂ ls l _ hstep ih =>
    rw [List.flatMap_append, List.map_append] at hnodup
    obtain ⟨hreplying, hview⟩ := ih hnodup.of_append_left
    rw [List.any_append, List.flatMap_append, List.map_append, ← hview]
    cases l with
    | listed i names =>
      obtain ⟨hserve, m, hm, hlists⟩ := hstep
      have hnodup' : (((if ls.any ReplyLine.isListed then userView (c₁.lists.usersOf chan) else []) ++
          names.map ListedName.view).map fun v => ircStrlower v.1).Nodup := by
        rw [hview]
        simpa [ListedName.view, ReplyLine.names, Function.comp_def] using hnodup
      obtain ⟨hnext, husers⟩ := hreplying.listed hchan hserve hm hlists hnodup'
      have hany : (ls.any ReplyLine.isListed ||
          [ReplyLine.listed i names].any ReplyLine.isListed) = true := by
        simp [ReplyLine.isListed]
      rw [hany, if_pos rfl, husers]
      exact ⟨hnext, by simp [ReplyLine.names]⟩
    | other i =>
      obtain ⟨hserve, m, hm, helsewhere⟩ := hstep
      obtain ⟨hnext, husers⟩ := hreplying.other hserve hm helsewhere
      rw [husers]
      simp only [List.any_cons, List.any_nil, ReplyLine.isListed, Bool.or_false]
      exact ⟨hnext, by simp [ReplyLine.names]⟩

/-- A server replies to NAMES for a channel, from a state in which it sends all mode characters and
no reply to NAMES or WHO is in progress for the channel. No nick is named twice. -/
structure NamesReplied (chan : Bytes) (c : Irc) (ls : List ReplyLine) (c' : Irc) : Prop where
  ready : Replying chan false c
  nodup : ((ls.flatMap ReplyLine.names).map fun n => ircStrlower n.nick).Nodup
  ended : ∃ c₁ i m, Run (NamesStep chan) c ls c₁ ∧ c₁.serve i = some c' ∧
    c₁.message i = some m ∧ Ends366 chan m

/-- A list holds the nicks of the names, each with the mode characters it was named with, and no
others. -/
def Holds (users : StrMap IrcUser) (names : List ListedName) : Prop :=
  (∀ n ∈ names, ∃ user, users.find? n.nick = some user ∧ user.nick = n.nick ∧
    user.chanmode = n.modes) ∧
  ∀ e ∈ users.entries, ∃ n ∈ names, e.1 = n.nick

/-- A list that shows the names holds them. -/
lemma holds_of_userView {users : StrMap IrcUser} {names : List ListedName}
    (h : userView users = names.map ListedName.view) : Holds users names := by
  constructor
  · intro n hn
    have hmem : n.view ∈ userView users := by
      rw [h]
      exact List.mem_map_of_mem hn
    obtain ⟨e, he, heq⟩ := List.mem_map.mp hmem
    obtain ⟨hkey, hvalue⟩ := Prod.mk.inj heq
    obtain ⟨hnick, hmodes⟩ := Prod.mk.inj hvalue
    exact ⟨e.2, hkey ▸ FoldMap.find?_of_mem he, hnick, hmodes⟩
  · intro e he
    have hmem : (e.1, e.2.nick, e.2.chanmode) ∈ userView users := List.mem_map_of_mem he
    rw [h] at hmem
    obtain ⟨n, hn, heq⟩ := List.mem_map.mp hmem
    exact ⟨n, hn, (Prod.mk.inj heq).1.symm⟩

/-- **A NAMES refresh is exact.** A reply of at least one line for a channel whose name starts with
`#` or `&`, its lines cut in any way, comes in among lines about other channels and on top of any
list. When it ends, the list holds the nicks named, each with the mode characters it was named with,
and no others.

**Proof sketch.** Induction on the lines. The invariant says whether a line of the reply has come,
which is when the channel is marked and the list has been emptied, and that the list then holds the
names so far in their order. The end of the reply leaves the list alone. -/
theorem names_refresh {chan : Bytes} {c c' : Irc} {ls : List ReplyLine}
    (h : NamesReplied chan c ls c') (hchan : isChanName chan = true)
    (hlisted : ls.any ReplyLine.isListed = true) :
    Holds (c'.getChanuserlist chan) (ls.flatMap ReplyLine.names) := by
  obtain ⟨c₁, i, m, hrun, hend, hm, hends⟩ := h.ended
  obtain ⟨-, hview⟩ := h.ready.run hchan hrun h.nodup
  have hsame : c'.getChanuserlist chan = c₁.lists.usersOf chan := by
    change c'.lists.usersOf chan = _
    rw [serve_lists hend, inputOps_endOfNames hm hends.1]
    rfl
  rw [if_pos hlisted, ← hsame] at hview
  exact holds_of_userView hview

/-- A server that sends all mode characters, and a channel that the bot and a user join. -/
def joinedWith (chan : String) : List Input :=
  [.line 0 (bytes ":srv 005 bot NAMESX :are supported"),
    .line 1 (bytes (":bot!u@h JOIN " ++ chan)), .line 2 (bytes (":old!u@h JOIN " ++ chan))]

/-- An operator in a reply, with user and host. -/
def listedOp : ListedName where
  modes := bytes "@"
  nick := bytes "foo"
  mask := some (bytes "u", bytes "h")
  modes_prefix := List.all_iff_forall_prop.mp rfl
  nick_ne_nil := by decide
  nick_head c hc := by
    obtain rfl := Option.some.inj hc
    decide
  nick_bytes := List.all_iff_forall_prop.mp rfl
  mask_bytes := by decide

/-- The lines of a reply for `#C`, and one about another channel. -/
def replyOp : List ReplyLine :=
  [.other (.line 3 (bytes ":srv 353 bot = #d :@bar")),
    .listed (.line 4 (bytes ":srv 353 bot = #C :  @foo!u@h ")) [listedOp]]

/-- The refresh of `#c`, in another spelling, with a line about another channel. -/
theorem names_refresh_op :
    ∃ c c' : Irc, Run (Fun serve) (started (bytes "bot")) (joinedWith "#c") c ∧
      NamesReplied (bytes "#C") c replyOp c' ∧ Holds (c'.getChanuserlist (bytes "#C")) [listedOp] := by
  have hreplied : ∃ c c' : Irc, Run (Fun serve) (started (bytes "bot")) (joinedWith "#c") c ∧
      NamesReplied (bytes "#C") c replyOp c' := by
    refine ⟨_, _, Run.of_foldlM rfl, ⟨rfl, rfl, rfl⟩, by decide, _,
      .line 5 (bytes ":srv 366 bot #C :End"), _, .cons ⟨rfl, _, rfl, .inl ⟨rfl, ?_⟩⟩
        (.cons ⟨rfl, _, rfl, rfl, ?_, rfl, ?_⟩ (.nil _)), rfl, rfl, rfl, ?_, rfl⟩
    · decide
    · decide
    · decide
    · decide
  obtain ⟨c, c', hrun, hreplied⟩ := hreplied
  exact ⟨c, c', hrun, hreplied, names_refresh hreplied rfl rfl⟩

/-- A user in a reply, with nothing but the nick. -/
def listedUser : ListedName where
  modes := []
  nick := bytes "foo"
  mask := none
  modes_prefix := List.all_iff_forall_prop.mp rfl
  nick_ne_nil := by decide
  nick_head c hc := by
    obtain rfl := Option.some.inj hc
    decide
  nick_bytes := List.all_iff_forall_prop.mp rfl
  mask_bytes := by decide

/-- **Replies that do not refresh the list**: one without any line leaves the list as it was, and
one for a channel whose name starts with neither `#` nor `&` is ignored.

**Proof sketch.** Both runs are evaluated. In the first one the old user is still listed; in the
second one the user of the reply is not. -/
theorem not_names_refresh :
    (∃ c c' : Irc, Run (Fun serve) (started (bytes "bot")) (joinedWith "#c") c ∧
      NamesReplied (bytes "#c") c [] c' ∧ ¬ Holds (c'.getChanuserlist (bytes "#c")) []) ∧
    ∃ c c' : Irc, Run (Fun serve) (started (bytes "bot")) (joinedWith "+c") c ∧
      NamesReplied (bytes "+c") c [.listed (.line 3 (bytes ":srv 353 bot = +c :foo")) [listedUser]] c' ∧
      ¬ Holds (c'.getChanuserlist (bytes "+c")) [listedUser] := by
  constructor
  · refine ⟨_, _, Run.of_foldlM rfl, ⟨⟨rfl, rfl, rfl⟩, by decide, _,
      .line 3 (bytes ":srv 366 bot #c :End"), _, .nil _, rfl, rfl, rfl, ?_, rfl⟩, ?_⟩
    · decide
    · rintro ⟨-, hall⟩
      obtain ⟨n, hn, -⟩ := hall (bytes "old", _) (List.mem_singleton.mpr rfl)
      exact List.not_mem_nil hn
  · refine ⟨_, _, Run.of_foldlM rfl, ⟨⟨rfl, rfl, rfl⟩, by decide, _,
      .line 4 (bytes ":srv 366 bot +c :End"), _, .cons ⟨rfl, _, rfl, rfl, ?_, rfl, ?_⟩ (.nil _),
      rfl, rfl, rfl, ?_, rfl⟩, ?_⟩
    · decide
    · decide
    · decide
    · rintro ⟨hall, -⟩
      obtain ⟨user, huser, -⟩ := hall listedUser (List.mem_singleton.mpr rfl)
      cases huser

end Irc

end Meowbot
