import Meowbot.Irc
import Meowbot.IrcCase
import Meowbot.Vsprintf
import Meowbot.WordList

set_option relaxedAutoImplicit false
set_option autoImplicit false

/-!
# The word quiz and its lock (`modules/mod_ewordquiz.cpp`, `etc.cpp`)

In the word quiz the users of a channel say words, each of which begins with the last syllable of
the word before it. The games stand in a map from channels that all threads of the bot share, with a
lock for readers and writers. The event handler takes the lock and gives it back by hand: when time
has passed, around a look at all games; when someone has said something, around the search for the
game of the channel, and if there is a game, around the rest. The two returns at the end of a game,
when a user has won and when there have been enough words, leave the lock taken.

What the handler does is a list of operations: on the lock, and messages that are sent. No other
thread changes a game while the handler runs.

## Main definitions

* `Meowbot.stripIrcColors` — `strip_irc_colors`.
* `Meowbot.EwordqStat` — a game.
* `Meowbot.isAnswer`, `Meowbot.quizAnswer`, `Meowbot.idleLoop`, `Meowbot.ircEventHandler` — the
  source.
* `Meowbot.Released` — the lock is free after some operations.
* `Meowbot.EndsGame` — a message after which a user has won or there have been enough words.

## Main results

* `Meowbot.released_iff` — the handler returns with the lock free exactly when the event is no
  message that ends a game.
-/

namespace Meowbot

/-! ## Text -/

/-- `[0-9]{0,n}+` at the start. -/
def dropDigits : ℕ → Bytes → Bytes
  | n + 1, c :: s => if isDigit c then dropDigits n s else c :: s
  | _, s => s

/-- What is left is not longer. -/
lemma length_dropDigits_le (n : ℕ) (s : Bytes) : (dropDigits n s).length ≤ s.length := by
  induction s generalizing n with
  | nil => cases n <;> exact le_rfl
  | cons c s ih =>
    cases n with
    | zero => exact le_rfl
    | succ n =>
      rw [dropDigits]
      split_ifs
      · exact (ih n).trans (Nat.le_succ s.length)
      · exact le_rfl

/-- The colours behind a colour code: `[0-9]{0,2}+,?+[0-9]{0,2}+`. -/
def dropColors (s : Bytes) : Bytes :=
  let s := dropDigits 2 s
  dropDigits 2 (if charAt s 0 = ',' then s.drop 1 else s)

/-- What is left is not longer. -/
lemma length_dropColors_le (s : Bytes) : (dropColors s).length ≤ s.length := by
  have h1 := length_dropDigits_le 2 s
  refine (length_dropDigits_le 2 _).trans ?_
  split_ifs
  · rw [List.length_drop]
    omega
  · exact h1

/-- `strip_irc_colors`: the bytes of the formats are dropped, and with the byte of a colour also the
digits behind it, with a comma between the two numbers. -/
def stripIrcColors : Bytes → Bytes
  | [] => []
  | c :: s =>
    if c = 0x03 then stripIrcColors (dropColors s)
    else if c = 0x02 ∨ c = 0x1f ∨ c = 0x0f then stripIrcColors s
    else c :: stripIrcColors s
termination_by s => s.length
decreasing_by
  · have := length_dropColors_le s
    rw [List.length_cons]
    omega
  · simp
  · simp

/-! ## Games -/

instance : IsStrictWeakOrder Bytes (fun a b => a < b) where
  trans _ _ _ := List.lt_trans
  irrefl a := List.lt_irrefl a
  incomp_trans a b c hab hbc := by
    obtain rfl := List.le_antisymm (List.not_lt.mp hab.2) (List.not_lt.mp hab.1)
    exact hbc

/-- Keys count as the same when they are the same. -/
lemma same_bytes_iff (a b : Bytes) :
    OrderedMap.Same (fun a b : Bytes => a < b) a b ↔ a = b := by
  constructor
  · intro h
    exact List.le_antisymm (List.not_lt.mp h.2) (List.not_lt.mp h.1)
  · rintro rfl
    exact OrderedMap.Same.refl a

/-- `std::map<std::string, int>` -/
abbrev Userstat := OrderedMap (fun a b : Bytes => a < b) Int32

/-- `ewordq_stat`, the game of a channel: whether it is going on, how many words are needed and how
many have been given, the last word with its time, and the words of each user. -/
structure EwordqStat where
  status : Int32
  score : Int32
  totalN : Int32
  crntN : Int32
  lastword : Bytes
  timeout : ℤ
  time : ℤ
  userstat : Userstat

/-- `ewordq_stat::ewordq_stat`. Only `status` is set, and nothing reads the rest before a game has
started. -/
def EwordqStat.init : EwordqStat := ⟨0, 0, 0, 0, [], 0, 0, .empty⟩

/-- What the handler does: it takes the lock and gives it back, and it sends messages. -/
inductive EwqOp where
  | rdlock
  | wrlock
  | unlock
  | privmsgNh (chan msg : Bytes)
  | privmsgfNh (chan format : Bytes) (args : List FmtArg)
  deriving DecidableEq

/-- `HANDLER_RESULT` -/
inductive HandlerResult where
  | finished
  | goOn
  deriving DecidableEq

/-- What the handler gets from outside: the words, and for each search for one the random numbers
and the pointer that is behind the last word, and the results of `time`. -/
structure EwqEnv where
  wordlist : List Bytes
  rand : ℕ → ℕ → ℕ
  behind : ℕ → Option Bytes
  clock : ℕ → ℤ

/-- The games, what has been done, and the result of the handler. -/
structure EwqRun where
  ewqstat : IrcStrmap EwordqStat
  ops : List EwqOp
  result : HandlerResult

/-! ## The source -/

/-- `find_word_by_startword_random_ewq`, for the `n`-th search. -/
def findWordEwq (env : EwqEnv) (n : ℕ) (startword : Bytes) : Option Bytes :=
  match findWordByStartwordRandom env.wordlist (env.rand n) (some startword) with
  | .null => none
  | .word w => some w
  | .outOfRange => env.behind n

/-- The `n`-th game, when time has passed. If the last word is old enough the game is over, or the
bot gives the next word; without one it has lost. -/
def idleStep (env : EwqEnv) (n : ℕ) (chan : Bytes) (ewq : EwordqStat) :
    Option (EwordqStat × List EwqOp) :=
  if ewq.status = 1 then
    if env.clock 0 - ewq.time > ewq.timeout then
      if ewq.crntN ≥ ewq.totalN then
        some ({ ewq with status := 0 }, [.privmsgNh chan (utf8Bytes "15회 초과")])
      else (utf8StrposS ewq.lastword (-1)).map fun lastchar =>
        match findWordEwq env n lastchar with
        | none => ({ ewq with status := 0 }, [.privmsgNh chan (utf8Bytes "내가 졌다능 orz")])
        | some nword =>
          ({ ewq with crntN := ewq.crntN + 1, lastword := nword, time := env.clock (n + 1) },
            [.privmsgfNh chan (utf8Bytes "%d초가 지났습니다.") [.int (Int32.ofInt ewq.timeout)],
              .privmsgfNh chan (utf8Bytes "\x02%s") [.str (some nword)]])
    else some (ewq, [])
  else some (ewq, [])

/-- The loop over the games, from the `n`-th one on. -/
def idleLoop (env : EwqEnv) : ℕ → List (Bytes × EwordqStat) → IrcStrmap EwordqStat →
    Option (IrcStrmap EwordqStat × List EwqOp)
  | _, [], ewqstat => some (ewqstat, [])
  | n, (chan, ewq) :: rest, ewqstat => do
    let (ewq, ops) ← idleStep env n chan ewq
    let (ewqstat, ops') ← idleLoop env (n + 1) rest (ewqstat.update chan fun _ => ewq)
    some (ewqstat, ops ++ ops')

/-- The word of a message counts: it is known, and begins with the last character of the word before
it. -/
def isAnswer (env : EwqEnv) (ewq : EwordqStat) (msg : Bytes) : Option Bool := do
  let len ← utf8Strlen (msg ++ [0])
  if len > 2 ∧ isWordExists env.wordlist (cstr msg) ≠ 0 then do
    let firstchar ← (utf8StrposS msg 0).bind applyHeadPronRule
    let lastchar ← (utf8StrposS ewq.lastword (-1)).bind applyHeadPronRule
    some (firstchar = lastchar)
  else some false

/-- The word of a user is counted. -/
def EwordqStat.count (ewq : EwordqStat) (nick : Bytes) : EwordqStat :=
  { ewq with
    userstat := ewq.userstat.update nick fun n => n.getD 0 + 1
    crntN := ewq.crntN + 1 }

/-- The first user with enough words. -/
def EwordqStat.winner (ewq : EwordqStat) : Option (Bytes × Int32) :=
  ewq.userstat.entries.find? fun e => e.2 ≥ ewq.score

/-- A message in a channel with a game, from the second time on that the lock is taken. When
somebody has won, or there have been enough words, the function returns without giving it back. -/
def quizAnswer (env : EwqEnv) (chan nick msg : Bytes) (ewq : EwordqStat) :
    Option (EwordqStat × List EwqOp × HandlerResult) := do
  let printWord ← isAnswer env ewq msg
  let ops : List EwqOp := if printWord then [.privmsgNh chan (utf8Bytes "정답: " ++ msg)] else []
  let ewq := if printWord then ewq.count nick else ewq
  match ewq.winner with
  | some (user, _) =>
    -- a return without an unlock
    (selectJosa user (utf8Text ['이', '가'])).map fun josa =>
      ({ ewq with status := 0 },
        ops ++ [.privmsgNh chan (user ++ josa ++ utf8Bytes " 이겼습니다.")], .finished)
  | none =>
    if ewq.crntN ≥ ewq.totalN then
      -- and another one
      some ({ ewq with status := 0 }, ops ++ [.privmsgNh chan (utf8Bytes "15회 초과")], .finished)
    else if printWord ∧ ewq.status = 1 then
      (utf8StrposS msg (-1)).map fun lastchar =>
        match findWordEwq env 0 lastchar with
        | none =>
          ({ ewq with status := 0 },
            ops ++ [.privmsgNh chan (utf8Bytes "내가 졌다능 orz"), .unlock], .finished)
        | some nword =>
          ({ ewq with lastword := nword, time := env.clock 0 },
            ops ++ [.privmsgfNh chan (utf8Bytes "\x02%s") [.str (some nword)], .unlock], .goOn)
    else some (ewq, ops ++ [.unlock], .goOn)

/-- The game of a channel. -/
def gameOf (ewqstat : IrcStrmap EwordqStat) (chan : Bytes) : EwordqStat :=
  (ewqstat.get? chan).getD .init

/-- The text of a message as the quiz looks at it. -/
def quizText (msg : Bytes) : Bytes := (stripIrcColors msg).filter (· ≠ (' ' : Byte))

/-- `irc_event_handler`, for an event of the protocol or one of the bot itself. It has no result
where the places in a text are not of type `int` or an exception is thrown. -/
def ircEventHandler (env : EwqEnv) (evdata : Option IrcEvent) (ewqstat : IrcStrmap EwordqStat) :
    Option EwqRun :=
  match evdata with
  | some .idle =>
    (idleLoop env 0 ewqstat.entries ewqstat).map fun r => ⟨r.1, .wrlock :: r.2 ++ [.unlock], .goOn⟩
  | some (.privmsg pmsg) =>
    let chan := pmsg.msginfo.chan
    if pmsg.msginfo.msgtype ≠ .ctcp ∧ charAt chan 0 = '#' then
      let ewqstat := ewqstat.update chan fun ewq => ewq.getD .init
      let ewq := gameOf ewqstat chan
      if ewq.status = 1 then
        (quizAnswer env chan pmsg.origin.nick (quizText pmsg.msg) ewq).map fun r =>
          ⟨ewqstat.update chan fun _ => r.1, [.rdlock, .unlock, .wrlock] ++ r.2.1, r.2.2⟩
      else some ⟨ewqstat, [.rdlock, .unlock], .goOn⟩
    else some ⟨ewqstat, [], .goOn⟩
  | _ => some ⟨ewqstat, [], .goOn⟩

/-! ## The lock -/

/-- Whether the lock is taken after an operation. -/
def EwqOp.takes : Bool → EwqOp → Bool
  | _, .rdlock => true
  | _, .wrlock => true
  | _, .unlock => false
  | taken, _ => taken

/-- Whether the lock is taken after some operations. -/
def lockTaken (taken : Bool) (ops : List EwqOp) : Bool := ops.foldl EwqOp.takes taken

/-- The lock is free after some operations of a thread that has not taken it. -/
def Released (ops : List EwqOp) : Prop := lockTaken false ops = false

/-- A message after which a user has enough words, or there have been enough words. -/
def EndsGame (env : EwqEnv) (nick msg : Bytes) (ewq : EwordqStat) : Prop :=
  let counts := isAnswer env ewq msg = some true
  (∃ user n, ewq.userstat.get? user = some n ∧ ¬(counts ∧ user = nick) ∧ ewq.score ≤ n) ∨
    (counts ∧ ewq.score ≤ (ewq.userstat.get? nick).getD 0 + 1) ∨
    (counts ∧ ewq.totalN ≤ ewq.crntN + 1) ∨ (¬counts ∧ ewq.totalN ≤ ewq.crntN)

/-- An event that is such a message in a channel with a game. -/
def EndsSomeGame (env : EwqEnv) (ewqstat : IrcStrmap EwordqStat) : Option IrcEvent → Prop
  | some (.privmsg pmsg) =>
    pmsg.msginfo.msgtype ≠ .ctcp ∧ charAt pmsg.msginfo.chan 0 = '#' ∧
      (gameOf ewqstat pmsg.msginfo.chan).status = 1 ∧
      EndsGame env pmsg.origin.nick (quizText pmsg.msg) (gameOf ewqstat pmsg.msginfo.chan)
  | _ => False

/-! ## Operations on the lock -/

/-- Some operations, and others behind them. -/
lemma lockTaken_append (taken : Bool) (ops ops' : List EwqOp) :
    lockTaken taken (ops ++ ops') = lockTaken (lockTaken taken ops) ops' :=
  List.foldl_append

/-- The lock is free after it is given back. -/
lemma lockTaken_append_unlock (taken : Bool) (ops : List EwqOp) :
    lockTaken taken (ops ++ [.unlock]) = false := by
  rw [lockTaken_append]
  rfl

/-! ## The end of a game -/

/-- There is a winner when a user has enough words. -/
lemma isSome_winner_iff (ewq : EwordqStat) :
    ewq.winner.isSome ↔ ∃ user n, ewq.userstat.get? user = some n ∧ ewq.score ≤ n := by
  rw [EwordqStat.winner, List.find?_isSome]
  constructor
  · rintro ⟨⟨user, n⟩, hmem, hscore⟩
    refine ⟨user, n, ?_, by simpa using hscore⟩
    rw [OrderedMap.get?, OrderedMap.find?_of_mem hmem (OrderedMap.Same.refl user)]
    rfl
  · rintro ⟨user, n, hget, hscore⟩
    obtain ⟨e, hfind, rfl⟩ := Option.map_eq_some_iff.mp hget
    exact ⟨e, (OrderedMap.find?_eq_some_iff.mp hfind).1, by simpa using hscore⟩

/-- The words of the users after one is counted. -/
lemma get?_count (ewq : EwordqStat) (nick user : Bytes) :
    (ewq.count nick).userstat.get? user =
      if user = nick then some ((ewq.userstat.get? nick).getD 0 + 1)
      else ewq.userstat.get? user := by
  rw [EwordqStat.count, OrderedMap.get?_update]
  simp only [same_bytes_iff]

/-- The end of a game, by the game after the word is counted.

**Proof sketch.** A user has enough words exactly if he had them before, and still has, or it is the
nick that now has one more; the number of words is one more if the word counts. -/
lemma endsGame_iff {env : EwqEnv} {nick msg : Bytes} {ewq : EwordqStat} {counts : Bool}
    (h : isAnswer env ewq msg = some counts) :
    EndsGame env nick msg ewq ↔
      (if counts then ewq.count nick else ewq).winner.isSome ∨
        ewq.totalN ≤ (if counts then ewq.count nick else ewq).crntN := by
  rw [EndsGame, h, isSome_winner_iff]
  cases counts with
  | false => simp
  | true =>
    have hwinner : (∃ user n, (ewq.count nick).userstat.get? user = some n ∧ ewq.score ≤ n) ↔
        (∃ user n, ewq.userstat.get? user = some n ∧ ¬user = nick ∧ ewq.score ≤ n) ∨
          ewq.score ≤ (ewq.userstat.get? nick).getD 0 + 1 := by
      constructor
      · rintro ⟨user, n, hget, hscore⟩
        rw [get?_count] at hget
        split_ifs at hget with huser
        · right
          rwa [Option.some.inj hget]
        · exact .inl ⟨user, n, hget, huser, hscore⟩
      · rintro (⟨user, n, hget, huser, hscore⟩ | hscore)
        · exact ⟨user, n, by rwa [get?_count, if_neg huser], hscore⟩
        · exact ⟨nick, _, by rw [get?_count, if_pos rfl], hscore⟩
    simp only [true_and, not_true, false_and, or_false, if_true]
    rw [← or_assoc]
    exact or_congr hwinner.symm Iff.rfl

/-- **A message in a channel with a game** leaves the lock taken when it ends the game in one of two
ways.

**Proof sketch.** By cases along the function. The two ways that end the game leave the lock taken;
on all others it is given back as the last thing. -/
lemma lockTaken_quizAnswer_iff {env : EwqEnv} {chan nick msg : Bytes} {ewq ewq' : EwordqStat}
    {ops : List EwqOp} {result : HandlerResult}
    (h : quizAnswer env chan nick msg ewq = some (ewq', ops, result)) :
    lockTaken true ops = true ↔ EndsGame env nick msg ewq := by
  obtain ⟨counts, hcounts, h⟩ := Option.bind_eq_some_iff.mp h
  rw [endsGame_iff hcounts]
  have hsent : lockTaken true (if counts then
      [EwqOp.privmsgNh chan (utf8Bytes "정답: " ++ msg)] else []) = true := by
    cases counts <;> rfl
  generalize (if counts then [EwqOp.privmsgNh chan (utf8Bytes "정답: " ++ msg)] else []) = sent
    at h hsent
  have htotal : (if counts then ewq.count nick else ewq).totalN = ewq.totalN := by
    cases counts <;> rfl
  rw [← htotal]
  generalize (if counts then ewq.count nick else ewq) = game at h ⊢
  dsimp only at h
  cases hwinner : game.winner with
  | some e =>
    rw [hwinner] at h
    obtain ⟨josa, -, hr⟩ := Option.map_eq_some_iff.mp h
    obtain ⟨-, rfl, -⟩ := by simpa only [Prod.mk.injEq] using hr
    rw [lockTaken_append, hsent]
    simp [lockTaken, EwqOp.takes]
  | none =>
    rw [hwinner] at h
    simp only [Option.isSome_none, Bool.false_eq_true, false_or]
    by_cases hlimit : game.totalN ≤ game.crntN
    · rw [if_pos hlimit] at h
      obtain ⟨-, rfl, -⟩ := by simpa only [Option.some.injEq, Prod.mk.injEq] using h
      rw [lockTaken_append, hsent]
      simp [lockTaken, EwqOp.takes, hlimit]
    rw [if_neg hlimit] at h
    have hfree : lockTaken true ops = false := by
      split_ifs at h with hprint
      · obtain ⟨lastchar, -, hr⟩ := Option.map_eq_some_iff.mp h
        cases hfind : findWordEwq env 0 lastchar with
        | none =>
          rw [hfind] at hr
          obtain ⟨-, rfl, -⟩ := by simpa only [Prod.mk.injEq] using hr
          rw [lockTaken_append]
          rfl
        | some nword =>
          rw [hfind] at hr
          obtain ⟨-, rfl, -⟩ := by simpa only [Prod.mk.injEq] using hr
          rw [lockTaken_append]
          rfl
      · obtain ⟨-, rfl, -⟩ := by simpa only [Option.some.injEq, Prod.mk.injEq] using h
        exact lockTaken_append_unlock _ _
    simp [hfree, hlimit]

/-- The game of a channel is looked up, and started if there is none. -/
lemma gameOf_update (ewqstat : IrcStrmap EwordqStat) (chan : Bytes) :
    gameOf (ewqstat.update chan fun ewq => ewq.getD .init) chan = gameOf ewqstat chan := by
  rw [gameOf, OrderedMap.get?_update, if_pos (OrderedMap.Same.refl chan)]
  rfl

/-- **The lock is free** when the handler returns exactly when the event is no message in a channel
with a game after which a user has enough words or there have been enough words.

**Proof sketch.** By cases on the event. Only a message in a channel with a game takes the write
lock in a way that may not give it back, which `lockTaken_quizAnswer_iff` says exactly. -/
theorem released_iff {env : EwqEnv} {evdata : Option IrcEvent} {ewqstat : IrcStrmap EwordqStat}
    {run : EwqRun} (h : ircEventHandler env evdata ewqstat = some run) :
    Released run.ops ↔ ¬EndsSomeGame env ewqstat evdata := by
  have hother : (some ⟨ewqstat, [], .goOn⟩ : Option EwqRun) = some run → Released run.ops := by
    rintro ⟨⟩
    rfl
  rcases evdata with _ | ev
  · exact iff_of_true (hother h) not_false
  cases ev with
  | idle =>
    obtain ⟨r, -, rfl⟩ := Option.map_eq_some_iff.mp h
    exact iff_of_true (lockTaken_append_unlock false (.wrlock :: r.2)) not_false
  | privmsg pmsg =>
    rw [ircEventHandler] at h
    by_cases hchan : pmsg.msginfo.msgtype ≠ .ctcp ∧ charAt pmsg.msginfo.chan 0 = '#'
    · simp only [if_pos hchan, gameOf_update] at h
      by_cases hstatus : (gameOf ewqstat pmsg.msginfo.chan).status = 1
      · rw [if_pos hstatus] at h
        obtain ⟨⟨ewq, ops, result⟩, hquiz, rfl⟩ := Option.map_eq_some_iff.mp h
        have htaken : lockTaken false ([.rdlock, .unlock, .wrlock] ++ ops) = lockTaken true ops :=
          lockTaken_append _ _ _
        rw [Released, htaken, ← Bool.not_eq_true, lockTaken_quizAnswer_iff hquiz, EndsSomeGame]
        exact not_congr ⟨fun hends => ⟨hchan.1, hchan.2, hstatus, hends⟩, fun hends => hends.2.2.2⟩
      · rw [if_neg hstatus] at h
        obtain rfl := Option.some.inj h
        exact iff_of_true rfl fun hends => hstatus hends.2.2.1
    · simp only [if_neg hchan] at h
      exact iff_of_true (hother h) fun hends => hchan ⟨hends.1, hends.2.1⟩
  | _ => exact iff_of_true (hother h) not_false

/-- A message without a word. -/
lemma isAnswer_nil (env : EwqEnv) (ewq : EwordqStat) : isAnswer env ewq [] = some false := by
  have hlen : utf8Strlen ([] ++ [0]) = some 0 := by
    rw [List.nil_append, utf8Strlen, utf8StrlenLoop]
    rfl
  rw [isAnswer, hlen]
  rfl

/-- A game in `#c`, after `n` words that nobody has said. -/
def quizGame (n : Int32) : EwordqStat := ⟨1, 10, 15, n, bytes "ab", 20, 0, .empty⟩

/-- A message in `#c` that is a space. -/
def quizSpace : IrcPrivmsg :=
  ⟨⟨bytes "n!u@h", bytes "n", bytes "u", bytes "h"⟩, .init (bytes "#c") .normal .chan false,
    bytes " "⟩

/-- Such a message in such a game.

**Proof sketch.** The text is a space, which is stripped, so the word is empty and does not count;
what is left is the number of words of the game. -/
lemma ircEventHandler_quizSpace (env : EwqEnv) (n : Int32) :
    ∃ run, ircEventHandler env (some (.privmsg quizSpace))
        (OrderedMap.empty.update (bytes "#c") fun _ => quizGame n) = some run ∧
      run.ops = [.rdlock, .unlock, .wrlock] ++
        if (15 : Int32) ≤ n then [.privmsgNh (bytes "#c") (utf8Bytes "15회 초과")] else [.unlock] := by
  have htext : quizText quizSpace.msg = [] := by
    rw [quizText, quizSpace, show bytes " " = [(' ' : Byte)] from rfl]
    simp [stripIrcColors]
  have hgame : gameOf (OrderedMap.empty.update (bytes "#c") fun _ => quizGame n) (bytes "#c") =
      quizGame n := rfl
  have hquiz : quizAnswer env (bytes "#c") (bytes "n") [] (quizGame n) =
      if (15 : Int32) ≤ n then
        some ({ quizGame n with status := 0 },
          [.privmsgNh (bytes "#c") (utf8Bytes "15회 초과")], .finished)
      else some (quizGame n, [.unlock], .goOn) := by
    rw [quizAnswer, isAnswer_nil]
    rfl
  rw [ircEventHandler, if_pos ⟨by decide, by decide⟩]
  dsimp only
  rw [show quizSpace.msginfo.chan = bytes "#c" from rfl, gameOf_update, hgame,
    if_pos (show (quizGame n).status = 1 from rfl), htext,
    show quizSpace.origin.nick = bytes "n" from rfl, hquiz]
  by_cases hn : (15 : Int32) ≤ n
  · rw [if_pos hn, if_pos hn]
    exact ⟨_, rfl, rfl⟩
  · rw [if_neg hn, if_neg hn]
    exact ⟨_, rfl, rfl⟩

/-- The game goes on. -/
theorem released_iff_quizSpace : ∃ run : EwqRun,
    ircEventHandler ⟨[], fun _ _ => 0, fun _ => none, fun _ => 0⟩ (some (.privmsg quizSpace))
      (OrderedMap.empty.update (bytes "#c") fun _ => quizGame 3) = some run ∧
    (Released run.ops ↔ ¬EndsSomeGame ⟨[], fun _ _ => 0, fun _ => none, fun _ => 0⟩
      (OrderedMap.empty.update (bytes "#c") fun _ => quizGame 3) (some (.privmsg quizSpace))) := by
  obtain ⟨run, hrun, -⟩ :=
    ircEventHandler_quizSpace ⟨[], fun _ _ => 0, fun _ => none, fun _ => 0⟩ 3
  exact ⟨run, hrun, released_iff hrun⟩

/-- **The lock stays taken** by a message in a channel with a game that has had fifteen words. -/
theorem not_released : ¬∀ (env : EwqEnv) (evdata : Option IrcEvent)
    (ewqstat : IrcStrmap EwordqStat) (run : EwqRun),
    ircEventHandler env evdata ewqstat = some run → Released run.ops := by
  intro h
  obtain ⟨run, hrun, hops⟩ :=
    ircEventHandler_quizSpace ⟨[], fun _ _ => 0, fun _ => none, fun _ => 0⟩ 15
  have hfree := h _ _ _ _ hrun
  rw [Released, hops, if_pos (by decide)] at hfree
  exact absurd hfree (by decide)

end Meowbot
