import Meowbot.Lib.Runs
import Meowbot.WordQuiz

set_option relaxedAutoImplicit false
set_option autoImplicit false

/-!
# The games of the word quiz (`modules/mod_ewordquiz.cpp`)

The threads of the bot share the games. A thread that has got a message looks up the game of the
channel with the lock taken for reading, looks at its status without the lock, and takes the lock
for writing only then. Other threads may stop the game in between, or start a new one, so that a
word may count in a game that is over or in one that has begun after the word was said.

A thread that ends a game leaves the lock taken, and all others wait for it. When this thread wants
to take the lock the next time, that fails with `EDEADLK`, which nobody looks at, and the `unlock`
that follows gives the lock back (so it is in glibc, which knows the thread that has a lock for
writing). A thread that has been waiting may then count a word in the game that is over, and end it
once more.

## Main definitions

* `Meowbot.cmdCbEwq` — a game is started or stopped.
* `Meowbot.Quiz`, `Meowbot.Quiz.step` — the threads, the games and the lock.
* `Meowbot.answers` — who has given the answers since a game was started.

## Main results

* `Meowbot.quizAnswer_cases` — what looking at a word can lead to.
* `Meowbot.Quiz.Kept.step` — every step keeps the counts.
* `Meowbot.Quiz.scores_exact` — the scores of a game are the answers that have been given in it.
-/

namespace Meowbot

open Runs

/-! ## The command -/

/-- `cmd_cb_ewq` for the command that is neither a search in the dictionary nor a cheat, with the
first word of a game and the time. -/
def cmdCbEwq (word : Bytes) (now : ℤ) (ewqstat : IrcStrmap EwordqStat) (chan carg : Bytes) :
    IrcStrmap EwordqStat × List EwqOp :=
  if charAt chan 0 ≠ '#' then (ewqstat, [])
  else
    let ewqstat := ewqstat.update chan fun ewq => ewq.getD .init
    if (gameOf ewqstat chan).status = 0 then
      (ewqstat.update chan fun _ => ⟨1, 10, 15, 0, word, 20, now, .empty⟩,
        [.wrlock, .privmsgNh chan (utf8Bytes "시작. 중지하려면 `!끝말2 중지'를 입력하세요."),
          .privmsgfNh chan (utf8Bytes "\x02%s") [.str (some word)], .unlock])
    else if carg = utf8Bytes "중지" ∨ carg = bytes "stop" then
      (ewqstat.update chan fun _ => { gameOf ewqstat chan with status := 0 },
        [.wrlock, .privmsgNh chan (utf8Bytes "끝"), .unlock])
    else (ewqstat, [.wrlock, .unlock])

/-! ## Threads -/

/-- What a thread is doing: nothing; it has the game of a channel for a message of a user; or it is
about to take the lock for writing. -/
inductive QuizPc where
  | ready
  | looked (chan nick msg : Bytes)
  | waiting (chan nick msg : Bytes)
  deriving DecidableEq

/-- What has happened: a game was started, or a user has given an answer. -/
inductive QuizMove where
  | started (chan : Bytes)
  | answered (chan nick : Bytes)
  deriving DecidableEq

/-- The games, the lock, the threads, and what has been done and has happened. -/
structure Quiz where
  ewqstat : IrcStrmap EwordqStat
  /-- The thread that has left the lock taken. -/
  taken : Option ℕ
  threads : ℕ → QuizPc
  ops : List EwqOp
  history : List QuizMove

/-- Steps of a thread: the three in which it handles a message, between which it has no lock, one
for the time that passes, and one for a command. -/
inductive QuizAct where
  /-- A message comes, and the thread looks up the game. -/
  | look (pmsg : IrcPrivmsg)
  /-- The thread looks at the status of the game. -/
  | check
  /-- The thread takes the lock and looks at the word. -/
  | answer (env : EwqEnv)
  /-- Time passes. -/
  | idle (env : EwqEnv)
  /-- A command comes. -/
  | command (word : Bytes) (now : ℤ) (chan carg : Bytes)

namespace Quiz

/-- A thread goes on. -/
def goTo (s : Quiz) (t : ℕ) (pc : QuizPc) : Quiz :=
  { s with threads := Function.update s.threads t pc }

/-- A thread that wants the lock goes on: the lock is free, or the thread has left it taken itself,
so that `pthread_rwlock_wrlock` and `pthread_rwlock_rdlock` fail at once. -/
def GoesOn (s : Quiz) (t : ℕ) : Prop := s.taken = none ∨ s.taken = some t

instance (s : Quiz) (t : ℕ) : Decidable (s.GoesOn t) := inferInstanceAs (Decidable (_ ∨ _))

/-- A thread takes the write lock for an answer. Who has the lock afterwards is kept, as a game that
ends leaves it taken by this thread. -/
def answerStep (s : Quiz) (t : ℕ) (env : EwqEnv) (chan nick msg : Bytes) : Option Quiz :=
  (quizAnswer env chan nick msg (gameOf s.ewqstat chan)).map fun r =>
    { s.goTo t .ready with
      ewqstat := s.ewqstat.update chan fun _ => r.1
      taken := if lockTaken true r.2.1 then some t else none
      ops := s.ops ++ .wrlock :: r.2.1
      history := s.history ++
        if isAnswer env (gameOf s.ewqstat chan) msg = some true then [.answered chan nick] else [] }

/-- A step of a thread. Behind an `unlock` the lock is free, whether it has been taken or the thread
has had it before. -/
def step (s : Quiz) : ℕ × QuizAct → Option Quiz
  | (t, .look pmsg) =>
    let chan := pmsg.msginfo.chan
    if s.threads t = .ready ∧ s.GoesOn t ∧ pmsg.msginfo.msgtype ≠ .ctcp ∧
        charAt chan 0 = '#' then
      some { s.goTo t (.looked chan pmsg.origin.nick (quizText pmsg.msg)) with
        ewqstat := s.ewqstat.update chan fun ewq => ewq.getD .init
        taken := none
        ops := s.ops ++ [.rdlock, .unlock] }
    else none
  | (t, .check) =>
    match s.threads t with
    | .looked chan nick msg =>
      some (s.goTo t
        (if (gameOf s.ewqstat chan).status = 1 then .waiting chan nick msg else .ready))
    | _ => none
  | (t, .answer env) =>
    match s.threads t with
    | .waiting chan nick msg => if s.GoesOn t then s.answerStep t env chan nick msg else none
    | _ => none
  | (t, .idle env) =>
    if s.threads t = .ready ∧ s.GoesOn t then
      (idleLoop env 0 s.ewqstat.entries s.ewqstat).map fun r =>
        { s with ewqstat := r.1, taken := none, ops := s.ops ++ (.wrlock :: r.2 ++ [.unlock]) }
    else none
  | (t, .command word now chan carg) =>
    if s.threads t = .ready ∧ (charAt chan 0 = '#' → s.GoesOn t) then
      let r := cmdCbEwq word now s.ewqstat chan carg
      some { s with
        ewqstat := r.1
        taken := if charAt chan 0 = '#' then none else s.taken
        ops := s.ops ++ r.2
        history := s.history ++
          if charAt chan 0 = '#' ∧ (gameOf s.ewqstat chan).status = 0 then [.started chan] else [] }
    else none

/-- No game has been started. -/
def start : Quiz := ⟨.empty, none, fun _ => .ready, [], []⟩

end Quiz

/-! ## The answers in a game -/

/-- The answers in the game of a channel after one more move. -/
def answersStep (chan : Bytes) (given : Option (List Bytes)) : QuizMove → Option (List Bytes)
  | .started c => if ircStrlower c = ircStrlower chan then some [] else given
  | .answered c nick => if ircStrlower c = ircStrlower chan then given.map (· ++ [nick]) else given

/-- The users who have given an answer since the last game of a channel was started, one for each
answer; none if there was no game. -/
def answers (history : List QuizMove) (chan : Bytes) : Option (List Bytes) :=
  history.foldl (answersStep chan) none

/-- The answers do not depend on the spelling of the channel. -/
lemma answers_congr (history : List QuizMove) {chan x : Bytes}
    (h : ircStrlower x = ircStrlower chan) : answers history x = answers history chan := by
  have hstep : answersStep x = answersStep chan := by
    funext given move
    cases move <;> simp only [answersStep, h]
  rw [answers, hstep, answers]

/-- The answers after one more move. -/
lemma answers_append (history : List QuizMove) (move : QuizMove) (chan : Bytes) :
    answers (history ++ [move]) chan = answersStep chan (answers history chan) move := by
  rw [answers, List.foldl_append, answers]
  rfl

/-- A further move does not end the record of a game. -/
lemma isSome_answers_append {history : List QuizMove} {chan : Bytes}
    (h : (answers history chan).isSome) (moves : List QuizMove) :
    (answers (history ++ moves) chan).isSome := by
  induction moves generalizing history with
  | nil => rwa [List.append_nil]
  | cons move moves ih =>
    rw [List.append_cons]
    refine ih ?_
    rw [answers_append]
    cases move <;> simp only [answersStep] <;> split_ifs <;> simp [h]

/-- The answers after a word was looked at. -/
lemma answers_answered {history : List QuizMove} {chan : Bytes} {given : List Bytes}
    (h : answers history chan = some given) (nick : Bytes) (p : Prop) [Decidable p] (x : Bytes) :
    answers (history ++ if p then [.answered chan nick] else []) x =
      if ircStrlower x = ircStrlower chan then some (given ++ if p then [nick] else [])
      else answers history x := by
  by_cases hp : p
  · rw [if_pos hp, answers_append, answersStep]
    simp only [eq_comm (b := ircStrlower x), if_pos hp]
    split_ifs with hx
    · rw [answers_congr history hx, h]
      rfl
    · rfl
  · rw [if_neg hp, if_neg hp, List.append_nil, List.append_nil]
    split_ifs with hx
    · rw [answers_congr history hx, h]
    · rfl

/-! ## The games after a change -/

/-- The game of a channel after a change. -/
lemma gameOf_update_eq (ewqstat : IrcStrmap EwordqStat) (chan x : Bytes)
    (f : Option EwordqStat → EwordqStat) :
    gameOf (ewqstat.update chan f) x =
      if ircStrlower x = ircStrlower chan then f (ewqstat.get? chan) else gameOf ewqstat x := by
  rw [gameOf, OrderedMap.get?_update]
  simp only [same_iff_ircStrlower]
  split_ifs <;> rfl

/-- The game does not depend on the spelling of the channel. -/
lemma gameOf_congr (ewqstat : IrcStrmap EwordqStat) {chan x : Bytes}
    (h : ircStrlower x = ircStrlower chan) : gameOf ewqstat x = gameOf ewqstat chan := by
  rw [gameOf, OrderedMap.get?_congr _ ((same_iff_ircStrlower x chan).mpr h), gameOf]

/-- Looking a game up changes no game. -/
lemma gameOf_lookup (ewqstat : IrcStrmap EwordqStat) (chan x : Bytes) :
    gameOf (ewqstat.update chan fun ewq => ewq.getD .init) x = gameOf ewqstat x := by
  rw [gameOf_update_eq]
  split_ifs with h
  · rw [gameOf_congr ewqstat h, gameOf]
  · rfl

/-! ## The counts -/

/-- **The counts of a game** agree with the answers that have been given. -/
structure Tallied (given : List Bytes) (ewq : EwordqStat) : Prop where
  score : ewq.score = 10
  totalN : ewq.totalN = 15
  timeout : ewq.timeout = 20
  userstat : ∀ nick, ewq.userstat.get? nick =
    if given.count nick = 0 then none else some (.ofNat (given.count nick))

/-- There have been so many words, among them the answers. -/
structure Words (given : List Bytes) (ewq : EwordqStat) (n : ℕ) : Prop where
  crntN : ewq.crntN = .ofNat n
  length_le : given.length ≤ n

/-- **A game that may go on**: nobody has won, and there have not been too many words. -/
structure Playing (given : List Bytes) (ewq : EwordqStat) : Prop where
  tallied : Tallied given ewq
  few : ∀ nick, given.count nick ≤ 9
  words : ∃ n ≤ 15, Words given ewq n

/-- The game of a channel: its counts are right, and it goes on only if it may; or there is none. -/
def GameOk (given : Option (List Bytes)) (ewq : EwordqStat) : Prop :=
  match given with
  | some given => Tallied given ewq ∧ (ewq.status = 1 → Playing given ewq)
  | none => ewq.status = 0

/-- **What has been said when the lock is left taken**: that a user has won, who has given ten
answers or more, or that there have been too many words. -/
def Announced (chan : Bytes) (given : List Bytes) (ewq : EwordqStat) (ops : List EwqOp) : Prop :=
  (∃ nick josa, 10 ≤ given.count nick ∧
    ops.getLast? = some (.privmsgNh chan (nick ++ josa ++ utf8Bytes " 이겼습니다."))) ∨
  (15 ≤ ewq.crntN ∧ ops.getLast? = some (.privmsgNh chan (utf8Bytes "15회 초과")))

/-- **How a game ends**: a user has given ten answers, the last of them just now, and is told to
have won; or nobody has, and there have been fifteen words. -/
def EndsWith (chan : Bytes) (given : List Bytes) (ewq : EwordqStat) (ops : List EwqOp) : Prop :=
  (∃ nick josa, given.getLast? = some nick ∧ given.count nick = 10 ∧
    (∀ x, x ≠ nick → given.count x ≤ 9) ∧
    ops.getLast? = some (.privmsgNh chan (nick ++ josa ++ utf8Bytes " 이겼습니다."))) ∨
  ((∀ nick, given.count nick ≤ 9) ∧ 15 ≤ ewq.crntN ∧
    ops.getLast? = some (.privmsgNh chan (utf8Bytes "15회 초과")))

/-- A game that has just been started. -/
lemma playing_nil (word : Bytes) (now : ℤ) : Playing [] ⟨1, 10, 15, 0, word, 20, now, .empty⟩ where
  tallied := ⟨rfl, rfl, rfl, fun nick => rfl⟩
  few := fun nick => Nat.zero_le _
  words := ⟨0, by omega, rfl, le_rfl⟩

/-- **One more answer** is counted. -/
lemma Tallied.count {given : List Bytes} {ewq : EwordqStat} (h : Tallied given ewq) (nick : Bytes) :
    Tallied (given ++ [nick]) (ewq.count nick) where
  score := h.score
  totalN := h.totalN
  timeout := h.timeout
  userstat := by
    intro user
    rw [get?_count, List.count_append, List.count_singleton]
    by_cases huser : user = nick
    · subst huser
      rw [if_pos rfl, h.userstat]
      split_ifs with hzero <;> simp_all
    · rw [if_neg huser, h.userstat]
      have hne : ¬ (nick == user) = true := by simpa using fun heq => huser heq.symm
      simp [hne]

/-- A user with enough words has given ten answers or more. -/
lemma Tallied.le_count_of_score_le {given : List Bytes} {ewq : EwordqStat} (h : Tallied given ewq)
    {nick : Bytes} {n : Int32} (hget : ewq.userstat.get? nick = some n) (hscore : ewq.score ≤ n) :
    10 ≤ given.count nick := by
  rw [h.userstat] at hget
  split_ifs at hget
  obtain rfl := Option.some.inj hget
  rw [h.score] at hscore
  by_contra hless
  exact hless ((Int32.ofNat_le_iff_le (a := 10) (by omega) (by omega)).mp hscore)

/-- So has the winner. -/
lemma Tallied.le_count_winner {given : List Bytes} {ewq : EwordqStat} (h : Tallied given ewq)
    {user : Bytes} {n : Int32} (hwinner : ewq.winner = some (user, n)) :
    10 ≤ given.count user := by
  have hmem := List.mem_of_find?_eq_some hwinner
  have hscore := List.find?_some hwinner
  refine h.le_count_of_score_le (n := n) ?_ (by simpa using hscore)
  rw [OrderedMap.get?, OrderedMap.find?_of_mem hmem (OrderedMap.Same.refl user)]
  rfl

/-- Without a winner nobody has given ten answers. -/
lemma Tallied.count_ne_of_winner {given : List Bytes} {ewq : EwordqStat} (h : Tallied given ewq)
    (hwinner : ewq.winner = none) (nick : Bytes) : given.count nick ≠ 10 := by
  intro hten
  have hsome : ewq.winner.isSome := by
    refine (isSome_winner_iff ewq).mpr ⟨nick, .ofNat 10, ?_, ?_⟩
    · rw [h.userstat, hten]
      rfl
    · rw [h.score]
      decide
  rw [hwinner] at hsome
  cases hsome

/-! ## A message -/

/-- **The counts after a word was looked at**: nobody has more than ten answers, and who has ten has
just given the tenth.

**Proof sketch.** If the word does not count nothing changes. If it counts, there is one more answer
of the nick: the table and the number of words grow by one, and only the count of the nick does,
which was at most nine. -/
lemma Playing.counted {given : List Bytes} {ewq : EwordqStat} (h : Playing given ewq) (nick : Bytes)
    (counts : Bool) :
    let given' := given ++ if counts then [nick] else []
    let game := if counts then ewq.count nick else ewq
    Tallied given' game ∧ (∃ n ≤ 16, Words given' game n) ∧
      ∀ user, given'.count user ≤ 10 ∧
        (given'.count user = 10 → given' = given ++ [nick] ∧ user = nick) := by
  intro given' game
  obtain ⟨n, hn, hwords⟩ := h.words
  cases counts with
  | false =>
    simp only [given', game, Bool.false_eq_true, if_false, List.append_nil]
    refine ⟨h.tallied, ⟨n, by omega, hwords⟩, fun user => ?_⟩
    have hfew := h.few user
    omega
  | true =>
    simp only [given', game, if_true]
    refine ⟨h.tallied.count nick, ⟨n + 1, by omega, ?_, ?_⟩, fun user => ?_⟩
    · rw [Int32.ofNat_add, ← hwords.crntN]
      rfl
    · simpa using hwords.length_le
    · have hfew := h.few user
      rw [List.count_append, List.count_singleton]
      by_cases huser : user = nick
      · subst huser
        simp
        omega
      · rw [if_neg (by simpa using fun heq => huser heq.symm)]
        omega

/-- **What looking at a word can lead to.** The word counts or does not; then somebody has enough
words, or there have been enough words, and the lock is left taken; or the lock is given back, and
the game goes on or is over because no word is found.

**Proof sketch.** By cases along the function: whether the word counts, whether there is a winner,
whether there have been enough words, and whether the next word is found. The lock is given back on
the last paths only. -/
lemma quizAnswer_cases {env : EwqEnv} {chan nick msg : Bytes} {ewq ewq' : EwordqStat}
    {ops : List EwqOp} {result : HandlerResult}
    (hquiz : quizAnswer env chan nick msg ewq = some (ewq', ops, result)) :
    ∃ counts, isAnswer env ewq msg = some counts ∧
      ∃ game, game = (if counts then ewq.count nick else ewq) ∧
        ((∃ user n josa, game.winner = some (user, n) ∧ ewq' = { game with status := 0 } ∧
            lockTaken true ops = true ∧
            ops.getLast? = some (.privmsgNh chan (user ++ josa ++ utf8Bytes " 이겼습니다."))) ∨
          (game.winner = none ∧ game.totalN ≤ game.crntN ∧ ewq' = { game with status := 0 } ∧
            lockTaken true ops = true ∧
            ops.getLast? = some (.privmsgNh chan (utf8Bytes "15회 초과"))) ∨
          (game.winner = none ∧ ¬game.totalN ≤ game.crntN ∧ lockTaken true ops = false ∧
            ∃ status lastword time, ewq' = { game with status, lastword, time } ∧
              (status = 0 ∨ status = game.status))) := by
  obtain ⟨counts, hcounts, hquiz⟩ := Option.bind_eq_some_iff.mp hquiz
  refine ⟨counts, hcounts, _, rfl, ?_⟩
  generalize (if counts then ewq.count nick else ewq) = game at hquiz
  have hsent : lockTaken true (if counts then
      [EwqOp.privmsgNh chan (utf8Bytes "정답: " ++ msg)] else []) = true := by
    cases counts <;> rfl
  generalize (if counts then [EwqOp.privmsgNh chan (utf8Bytes "정답: " ++ msg)] else []) = sent
    at hquiz hsent
  dsimp only at hquiz
  cases hwinner : game.winner with
  | some e =>
    obtain ⟨user, score⟩ := e
    rw [hwinner] at hquiz
    obtain ⟨josa, -, hr⟩ := Option.map_eq_some_iff.mp hquiz
    obtain ⟨rfl, rfl, -⟩ := by simpa only [Prod.mk.injEq] using hr
    refine .inl ⟨user, score, josa, rfl, rfl, ?_, List.getLast?_concat⟩
    rw [lockTaken_append, hsent]
    rfl
  | none =>
    rw [hwinner] at hquiz
    by_cases hover : game.totalN ≤ game.crntN
    · rw [if_pos hover] at hquiz
      obtain ⟨rfl, rfl, -⟩ := by simpa only [Option.some.injEq, Prod.mk.injEq] using hquiz
      refine .inr (.inl ⟨rfl, hover, rfl, ?_, List.getLast?_concat⟩)
      rw [lockTaken_append, hsent]
      rfl
    · rw [if_neg hover] at hquiz
      refine .inr (.inr ⟨rfl, hover, ?_⟩)
      split_ifs at hquiz
      · obtain ⟨lastchar, -, hr⟩ := Option.map_eq_some_iff.mp hquiz
        cases hfind : findWordEwq env 0 lastchar with
        | none =>
          rw [hfind] at hr
          obtain ⟨rfl, rfl, -⟩ := by simpa only [Prod.mk.injEq] using hr
          exact ⟨by rw [lockTaken_append]; rfl, _, _, _, rfl, .inl rfl⟩
        | some nword =>
          rw [hfind] at hr
          obtain ⟨rfl, rfl, -⟩ := by simpa only [Prod.mk.injEq] using hr
          exact ⟨by rw [lockTaken_append]; rfl, _, _, _, rfl, .inr rfl⟩
      · obtain ⟨rfl, rfl, -⟩ := by simpa only [Option.some.injEq, Prod.mk.injEq] using hquiz
        exact ⟨lockTaken_append_unlock _ _, _, _, _, rfl, .inr rfl⟩

/-- The answers that have been given when a word has been looked at. -/
def withAnswer (env : EwqEnv) (ewq : EwordqStat) (nick msg : Bytes) (given : List Bytes) :
    List Bytes :=
  given ++ if isAnswer env ewq msg = some true then [nick] else []

/-- They are known when it is known whether the word counts. -/
lemma withAnswer_eq {env : EwqEnv} {ewq : EwordqStat} {msg : Bytes} {counts : Bool}
    (h : isAnswer env ewq msg = some counts) (nick : Bytes) (given : List Bytes) :
    withAnswer env ewq nick msg given = given ++ if counts then [nick] else [] := by
  simp only [withAnswer, h, Option.some.injEq]

/-- **A word is looked at** in a game that may go on: the lock is given back and the game may go on,
or it is left taken at the end of the game.

**Proof sketch.** The counts after the word are those of `counted`, and `quizAnswer_cases` lists the
ways out. A winner has at least ten answers, so exactly ten, and gave the last one; with nobody at
ten the game is over exactly when fifteen words have counted. -/
lemma Playing.answer {given : List Bytes} {ewq : EwordqStat} (h : Playing given ewq) {env : EwqEnv}
    {chan nick msg : Bytes} {ewq' : EwordqStat} {ops : List EwqOp} {result : HandlerResult}
    (hquiz : quizAnswer env chan nick msg ewq = some (ewq', ops, result)) :
    (lockTaken true ops = false ∧ Playing (withAnswer env ewq nick msg given) ewq') ∨
      (lockTaken true ops = true ∧ ewq'.status = 0 ∧
        EndsWith chan (withAnswer env ewq nick msg given) ewq' ops) := by
  obtain ⟨counts, hcounts, game, rfl, hcases⟩ := quizAnswer_cases hquiz
  obtain ⟨htallied, ⟨n, hn, hwords⟩, hten⟩ := h.counted nick counts
  rw [withAnswer_eq hcounts]
  generalize (if counts then ewq.count nick else ewq) = game at hcases htallied hwords
  generalize given ++ (if counts then [nick] else []) = given' at htallied hwords hten ⊢
  have hnone : game.winner = none → ∀ user, given'.count user ≤ 9 := by
    intro hwinner user
    have hle := (hten user).1
    have hne := htallied.count_ne_of_winner hwinner user
    omega
  have hlimit : game.totalN ≤ game.crntN ↔ 15 ≤ n := by
    rw [htallied.totalN, hwords.crntN]
    exact Int32.ofNat_le_iff_le (a := 15) (by omega) (by omega)
  rcases hcases with ⟨user, score, josa, hwinner, rfl, hleft, hlast⟩ |
    ⟨hwinner, hover, rfl, hleft, hlast⟩ | ⟨hwinner, hover, hfree, status, lastword, time, rfl, -⟩
  · have huser : given'.count user = 10 :=
      le_antisymm (hten user).1 (htallied.le_count_winner hwinner)
    obtain ⟨hgiven', rfl⟩ := (hten user).2 huser
    refine .inr ⟨hleft, rfl, .inl ⟨user, josa, ?_, huser, fun x hx => ?_, hlast⟩⟩
    · rw [hgiven', List.getLast?_concat]
    · have hle := (hten x).1
      have hne : given'.count x ≠ 10 := fun heq => hx ((hten x).2 heq).2
      omega
  · refine .inr ⟨hleft, rfl, .inr ⟨hnone hwinner, ?_, hlast⟩⟩
    rw [← htallied.totalN]
    exact hover
  · have hless := mt hlimit.mpr hover
    exact .inl ⟨hfree, ⟨htallied.score, htallied.totalN, htallied.timeout, htallied.userstat⟩,
      hnone hwinner, n, by omega, hwords.crntN, hwords.length_le⟩

/-- **A word is looked at** in any game, also one that is over: the counts stay right, and when the
lock is left taken the game is over, which is said.

**Proof sketch.** A game that is going on is `Playing.answer`. In one that is over the counts are
right because each word that counts is counted, and the ways out are those of `quizAnswer_cases`. -/
lemma Tallied.answer {given : List Bytes} {ewq : EwordqStat} (h : Tallied given ewq)
    (hplaying : ewq.status = 1 → Playing given ewq) {env : EwqEnv} {chan nick msg : Bytes}
    {ewq' : EwordqStat} {ops : List EwqOp} {result : HandlerResult}
    (hquiz : quizAnswer env chan nick msg ewq = some (ewq', ops, result)) :
    GameOk (some (withAnswer env ewq nick msg given)) ewq' ∧
      (lockTaken true ops = true → ewq'.status = 0 ∧
        Announced chan (withAnswer env ewq nick msg given) ewq' ops) := by
  obtain ⟨counts, hcounts, game, hgame, hcases⟩ := quizAnswer_cases hquiz
  have htallied : Tallied (withAnswer env ewq nick msg given) game := by
    rw [withAnswer_eq hcounts, hgame]
    cases counts with
    | false => simpa using h
    | true => simpa using h.count nick
  have hstatus : game.status = ewq.status := by
    rw [hgame]
    cases counts <;> rfl
  have hover : ¬(0 : Int32) = 1 := by decide
  have hsame : ∀ status lastword time, Tallied (withAnswer env ewq nick msg given)
      { game with status, lastword, time } := fun _ _ _ =>
    ⟨htallied.score, htallied.totalN, htallied.timeout, htallied.userstat⟩
  rcases hcases with ⟨user, score, josa, hwinner, rfl, -, hlast⟩ |
    ⟨-, hlimit, rfl, -, hlast⟩ | ⟨-, -, hfree, status, lastword, time, rfl, hgoes⟩
  · refine ⟨⟨hsame _ _ _, fun hone => absurd hone hover⟩, fun _ => ⟨rfl, .inl ?_⟩⟩
    exact ⟨user, josa, htallied.le_count_winner hwinner, hlast⟩
  · refine ⟨⟨hsame _ _ _, fun hone => absurd hone hover⟩, fun _ => ⟨rfl, .inr ⟨?_, hlast⟩⟩⟩
    rw [← htallied.totalN]
    exact hlimit
  · refine ⟨⟨hsame _ _ _, fun hone => ?_⟩, fun hleft => ?_⟩
    · have hrunning : ewq.status = 1 := by
        rcases hgoes with rfl | rfl
        · exact absurd hone hover
        · rw [← hstatus]
          exact hone
      rcases (hplaying hrunning).answer hquiz with ⟨-, hgoesOn⟩ | ⟨hleft, -⟩
      · exact hgoesOn
      · exact absurd (hleft.symm.trans hfree) Bool.true_eq_false.mp
    · exact absurd (hleft.symm.trans hfree) Bool.true_eq_false.mp

/-- What is said last is said last. -/
lemma getLast?_append_of_getLast? {ops : List EwqOp} {op : EwqOp} (h : ops.getLast? = some op)
    (before : List EwqOp) : (before ++ ops).getLast? = some op := by
  rw [List.getLast?_append, h]
  rfl

/-- How a game ends does not depend on what was done before. -/
lemma EndsWith.append {chan : Bytes} {given : List Bytes} {ewq : EwordqStat} {ops : List EwqOp}
    (h : EndsWith chan given ewq ops) (before : List EwqOp) :
    EndsWith chan given ewq (before ++ ops) := by
  rcases h with ⟨nick, josa, hgiven, hten, hothers, hops⟩ | ⟨hfew, hlimit, hops⟩
  · exact .inl ⟨nick, josa, hgiven, hten, hothers, getLast?_append_of_getLast? hops _⟩
  · exact .inr ⟨hfew, hlimit, getLast?_append_of_getLast? hops _⟩

/-- Nor does what is said then. -/
lemma Announced.append {chan : Bytes} {given : List Bytes} {ewq : EwordqStat} {ops : List EwqOp}
    (h : Announced chan given ewq ops) (before : List EwqOp) :
    Announced chan given ewq (before ++ ops) := by
  rcases h with ⟨nick, josa, hten, hops⟩ | ⟨hlimit, hops⟩
  · exact .inl ⟨nick, josa, hten, getLast?_append_of_getLast? hops _⟩
  · exact .inr ⟨hlimit, getLast?_append_of_getLast? hops _⟩

/-! ## Time -/

/-- A game that is stopped is over. -/
lemma Tallied.stopped {given : List Bytes} {ewq : EwordqStat} (h : Tallied given ewq) :
    GameOk (some given) { ewq with status := 0 } := by
  have hover : (0 : Int32) ≠ 1 := by decide
  exact ⟨⟨h.score, h.totalN, h.timeout, h.userstat⟩, fun hone => absurd hone hover⟩

/-- **Time passes** in a game.

**Proof sketch.** By cases along the function. A channel without a game is passed over; otherwise
the game is stopped, or only its word, its time or its number of words is changed. -/
lemma GameOk.idleStep {given : Option (List Bytes)} {ewq : EwordqStat} (h : GameOk given ewq)
    {env : EwqEnv} {n : ℕ} {chan : Bytes} {r : EwordqStat × List EwqOp}
    (hstep : idleStep env n chan ewq = some r) : GameOk given r.1 := by
  rw [Meowbot.idleStep] at hstep
  cases given with
  | none =>
    have hstatus : ewq.status ≠ 1 := by
      rw [show ewq.status = 0 from h]
      decide
    rw [if_neg hstatus] at hstep
    obtain rfl := Option.some.inj hstep
    exact h
  | some given =>
    obtain ⟨htallied, hplaying⟩ : Tallied given ewq ∧ (ewq.status = 1 → Playing given ewq) := h
    split_ifs at hstep with hstatus hpassed hlimit
    · obtain rfl := Option.some.inj hstep
      exact htallied.stopped
    · obtain ⟨hscore, htotalN, htimeout, huserstat⟩ := htallied
      obtain ⟨-, hfew, words, hwords, hcrntN, hlength⟩ := hplaying hstatus
      obtain ⟨lastchar, -, rfl⟩ := Option.map_eq_some_iff.mp hstep
      cases findWordEwq env n lastchar with
      | none => exact Tallied.stopped ⟨hscore, htotalN, htimeout, huserstat⟩
      | some nword =>
        rw [htotalN, hcrntN] at hlimit
        have hless : ¬ 15 ≤ words := fun hle =>
          hlimit ((Int32.ofNat_le_iff_le (a := 15) (by omega) (by omega)).mpr hle)
        have htallied' : Tallied given { ewq with
            crntN := ewq.crntN + 1, lastword := nword, time := env.clock (n + 1) } :=
          ⟨hscore, htotalN, htimeout, huserstat⟩
        refine ⟨htallied', fun _ => ⟨htallied', hfew, words + 1, by omega, ?_, by omega⟩⟩
        rw [Int32.ofNat_add, ← hcrntN]
        rfl
    · obtain rfl := Option.some.inj hstep
      exact ⟨htallied, hplaying⟩
    · obtain rfl := Option.some.inj hstep
      exact ⟨htallied, hplaying⟩

/-- What holds of the game of every channel, and is kept when time passes in it, holds after the
loop over the games.

**Proof sketch.** By induction on the entries that are left. The step changes the game of one
channel, which the others do not see; a channel of the same folded name has the same game. -/
lemma idleLoop_keeps {P : Bytes → EwordqStat → Prop}
    (hcongr : ∀ {x chan g}, ircStrlower x = ircStrlower chan → P chan g → P x g) {env : EwqEnv}
    (hstep : ∀ {n chan g r}, P chan g → idleStep env n chan g = some r → P chan r.1) {n : ℕ}
    {es : List (Bytes × EwordqStat)} {m : IrcStrmap EwordqStat}
    {r : IrcStrmap EwordqStat × List EwqOp} (h : idleLoop env n es m = some r)
    (hes : ∀ e ∈ es, P e.1 e.2) (hm : ∀ chan, P chan (gameOf m chan)) (chan : Bytes) :
    P chan (gameOf r.1 chan) := by
  induction es generalizing n m r with
  | nil =>
    obtain rfl := Option.some.inj h
    exact hm chan
  | cons e es ih =>
    obtain ⟨x, g⟩ := e
    obtain ⟨⟨g', ops⟩, hg', h⟩ := Option.bind_eq_some_iff.mp h
    obtain ⟨r', hr', h⟩ := Option.bind_eq_some_iff.mp h
    obtain rfl := Option.some.inj h
    refine ih (r := r') hr' (fun e he => hes e (List.mem_cons_of_mem _ he)) fun y => ?_
    rw [gameOf_update_eq]
    split_ifs with hy
    · exact hcongr hy (hstep (hes _ List.mem_cons_self) hg')
    · exact hm y

/-- The entries of the map are the games. -/
lemma gameOf_of_mem {m : IrcStrmap EwordqStat} {e : Bytes × EwordqStat} (he : e ∈ m.entries) :
    gameOf m e.1 = e.2 := by
  rw [gameOf, OrderedMap.get?, OrderedMap.find?_of_mem he (OrderedMap.Same.refl e.1)]
  rfl

/-! ## The invariant -/

namespace Quiz

/-- **The invariant**: the games agree with the answers given, and when the lock is left taken a
game is over, which is what has been said last. -/
structure Kept (s : Quiz) : Prop where
  games : ∀ chan, GameOk (answers s.history chan) (gameOf s.ewqstat chan)
  left : ∀ t, s.taken = some t → ∃ chan given, answers s.history chan = some given ∧
    (gameOf s.ewqstat chan).status = 0 ∧ Announced chan given (gameOf s.ewqstat chan) s.ops
  waiting : ∀ t chan nick msg, s.threads t = .waiting chan nick msg →
    (answers s.history chan).isSome

variable {s s' : Quiz}

/-- The invariant holds at the start. -/
lemma kept_start : start.Kept where
  games := fun chan => rfl
  left := fun _ h => by cases h
  waiting := fun _ _ _ _ h => by cases h

/-- A game whose status is one has been started. -/
lemma Kept.isSome_answers (h : s.Kept) {chan : Bytes}
    (hstatus : (gameOf s.ewqstat chan).status = 1) : (answers s.history chan).isSome := by
  have hgame := h.games chan
  cases hanswers : answers s.history chan with
  | some given => rfl
  | none =>
    rw [hanswers] at hgame
    rw [show (gameOf s.ewqstat chan).status = 0 from hgame] at hstatus
    exact absurd hstatus (by decide)

/-- The counts of a game that has been started, which may go on if its status is one. -/
lemma Kept.game (h : s.Kept) {chan : Bytes} {given : List Bytes}
    (hgiven : answers s.history chan = some given) : Tallied given (gameOf s.ewqstat chan) ∧
      ((gameOf s.ewqstat chan).status = 1 → Playing given (gameOf s.ewqstat chan)) := by
  have hgame := h.games chan
  rwa [hgiven] at hgame

/-- A thread that waits after one has moved was waiting before, or is the one. -/
lemma Kept.waiting_goTo (h : s.Kept) {t t' : ℕ} {pc : QuizPc} {chan nick msg : Bytes}
    (hpc : pc = .waiting chan nick msg → (answers s.history chan).isSome)
    (hwaiting : (s.goTo t pc).threads t' = .waiting chan nick msg) :
    (answers s.history chan).isSome := by
  rw [goTo] at hwaiting
  by_cases ht : t' = t
  · subst ht
    simp only [Function.update_self] at hwaiting
    exact hpc hwaiting
  · simp only [Function.update_of_ne ht] at hwaiting
    exact h.waiting t' chan nick msg hwaiting

/-- **What a thread that takes the lock does** to the answers and the game of its channel.

**Proof sketch.** Everything is read off the step. Channels with the same folded name share the
answers and the game, and every other channel keeps its own. -/
lemma answerStep_chan {t : ℕ} {env : EwqEnv} {chan nick msg : Bytes} {given : List Bytes}
    (hgiven : answers s.history chan = some given)
    (hstep : s.answerStep t env chan nick msg = some s') :
    ∃ ops result, quizAnswer env chan nick msg (gameOf s.ewqstat chan) =
        some (gameOf s'.ewqstat chan, ops, result) ∧
      s'.taken = (if lockTaken true ops then some t else none) ∧
      s'.ops = s.ops ++ .wrlock :: ops ∧ s'.threads = (s.goTo t .ready).threads ∧
      (∃ moves, s'.history = s.history ++ moves) ∧
      answers s'.history chan = some (withAnswer env (gameOf s.ewqstat chan) nick msg given) ∧
      ∀ x, ircStrlower x ≠ ircStrlower chan →
        answers s'.history x = answers s.history x ∧ gameOf s'.ewqstat x = gameOf s.ewqstat x := by
  obtain ⟨⟨ewq, ops, result⟩, hquiz, rfl⟩ := Option.map_eq_some_iff.mp hstep
  have hanswers := answers_answered hgiven nick
    (isAnswer env (gameOf s.ewqstat chan) msg = some true)
  refine ⟨ops, result, ?_, rfl, rfl, rfl, ⟨_, rfl⟩, ?_, fun x hx => ⟨?_, ?_⟩⟩
  · rw [gameOf_update_eq, if_pos rfl]
    exact hquiz
  · rw [hanswers, if_pos rfl]
    rfl
  · rw [hanswers, if_neg hx]
  · rw [gameOf_update_eq, if_neg hx]

/-- **A thread takes the lock** and looks at the word.

**Proof sketch.** For the channel of the word this is `Tallied.answer`; the games of the other
channels and the words that are waited for are as before. The lock is left taken only at the end of
a game, which has been said. -/
lemma Kept.answer (h : s.Kept) {t : ℕ} {env : EwqEnv} {chan nick msg : Bytes}
    (hpc : s.threads t = .waiting chan nick msg)
    (hstep : s.answerStep t env chan nick msg = some s') : s'.Kept := by
  obtain ⟨given, hgiven⟩ := Option.isSome_iff_exists.mp (h.waiting t chan nick msg hpc)
  obtain ⟨ops, result, hquiz, htaken, hops, hthreads, ⟨moves, hmoves⟩, hanswers, hothers⟩ :=
    answerStep_chan hgiven hstep
  obtain ⟨htallied, hplaying⟩ := h.game hgiven
  obtain ⟨hok, hleft⟩ := htallied.answer hplaying hquiz
  refine ⟨fun x => ?_, fun t' ht' => ?_, fun t' chan' nick' msg' hpc' => ?_⟩
  · by_cases hx : ircStrlower x = ircStrlower chan
    · rw [answers_congr s'.history hx, gameOf_congr s'.ewqstat hx, hanswers]
      exact hok
    · rw [(hothers x hx).1, (hothers x hx).2]
      exact h.games x
  · have hlocked : lockTaken true ops = true := by
      by_contra hfree
      rw [htaken, if_neg hfree] at ht'
      cases ht'
    obtain ⟨hstatus, hsaid⟩ := hleft hlocked
    refine ⟨chan, _, hanswers, hstatus, ?_⟩
    rw [hops, List.append_cons]
    exact hsaid.append _
  · rw [hthreads] at hpc'
    rw [hmoves]
    exact isSome_answers_append (h.waiting_goTo (fun h => by cases h) hpc') _

/-- **A command** starts a game or stops one.

**Proof sketch.** Outside a channel nothing is done. Without a game one is started, with no answers;
otherwise the game is stopped, or it goes on and its state is told. -/
lemma Kept.command (h : s.Kept) (word : Bytes) (now : ℤ) (chan carg : Bytes) (x : Bytes) :
    GameOk (answers (s.history ++
        if charAt chan 0 = '#' ∧ (gameOf s.ewqstat chan).status = 0 then [.started chan] else []) x)
      (gameOf (cmdCbEwq word now s.ewqstat chan carg).1 x) := by
  have hok := h.games
  rw [cmdCbEwq]
  by_cases hchan : charAt chan 0 = '#'
  swap
  · rw [if_pos hchan, if_neg (fun hand => hchan hand.1), List.append_nil]
    exact hok x
  rw [if_neg (not_not_intro hchan)]
  simp only [gameOf_lookup, hchan, true_and]
  by_cases hstatus : (gameOf s.ewqstat chan).status = 0
  · rw [if_pos hstatus, if_pos hstatus, answers_append, answersStep, gameOf_update_eq]
    simp only [eq_comm (a := ircStrlower chan)]
    split_ifs
    · exact ⟨(playing_nil word now).tallied, fun _ => playing_nil word now⟩
    · rw [gameOf_lookup]
      exact hok x
  · rw [if_neg hstatus, if_neg hstatus, List.append_nil]
    split_ifs
    · rw [gameOf_update_eq]
      split_ifs with hx
      · rw [answers_congr s.history hx]
        cases hanswers : answers s.history chan with
        | none => rfl
        | some given => exact (h.game hanswers).1.stopped
      · rw [gameOf_lookup]
        exact hok x
    · rw [gameOf_lookup]
      exact hok x

/-- **One step** keeps the invariant.

**Proof sketch.** By cases on the step. A look, a check and a word that is given up move the thread
only; an answer, the passing of time and a command have lemmas of their own. -/
lemma Kept.step (h : s.Kept) {l : ℕ × QuizAct} (hstep : s.step l = some s') : s'.Kept := by
  obtain ⟨t, act⟩ := l
  cases act with
  | look pmsg =>
    simp only [Quiz.step] at hstep
    split_ifs at hstep with hready
    obtain rfl := Option.some.inj hstep
    refine ⟨fun x => ?_, fun _ hl => (by cases hl), fun t' chan nick msg hpc =>
      h.waiting_goTo (fun h => by cases h) hpc⟩
    change GameOk _ (gameOf (s.ewqstat.update _ _) x)
    rw [gameOf_lookup]
    exact h.games x
  | check =>
    simp only [Quiz.step] at hstep
    split at hstep
    · obtain rfl := Option.some.inj hstep
      refine ⟨h.games, h.left, fun t' chan nick msg hpc => h.waiting_goTo (fun heq => ?_) hpc⟩
      split_ifs at heq with hstatus
      obtain ⟨rfl, rfl, rfl⟩ := by simpa only [QuizPc.waiting.injEq] using heq
      exact h.isSome_answers hstatus
    · cases hstep
  | answer env =>
    simp only [Quiz.step] at hstep
    split at hstep
    · rename_i chan nick msg hpc
      split_ifs at hstep
      exact h.answer hpc hstep
    · cases hstep
  | idle env =>
    simp only [Quiz.step] at hstep
    split_ifs at hstep with hready
    obtain ⟨r, hloop, rfl⟩ := Option.map_eq_some_iff.mp hstep
    refine ⟨fun chan => ?_, fun _ hl => (by cases hl), h.waiting⟩
    refine idleLoop_keeps (P := fun chan ewq => GameOk (answers s.history chan) ewq)
      (fun hx hgame => ?_) (fun hgame hg => hgame.idleStep hg) hloop (fun e he => ?_) h.games chan
    · rwa [answers_congr s.history hx]
    · rw [← gameOf_of_mem he]
      exact h.games e.1
  | command word now chan carg =>
    rw [Quiz.step] at hstep
    by_cases hready : s.threads t = .ready ∧ (charAt chan 0 = '#' → s.GoesOn t)
    · rw [if_pos hready] at hstep
      obtain rfl := Option.some.inj hstep
      refine ⟨h.command word now chan carg, fun t' hl => ?_, fun t' chan' nick msg hpc =>
        isSome_answers_append (h.waiting t' chan' nick msg hpc) _⟩
      -- in a private talk nothing is done, and the lock may be taken
      by_cases hchan : charAt chan 0 = '#'
      · simp [hchan] at hl
      · have hskip : cmdCbEwq word now s.ewqstat chan carg = (s.ewqstat, []) := if_pos hchan
        simp only [hchan, if_false] at hl
        dsimp only
        rw [hskip, if_neg fun hand => hchan hand.1, List.append_nil, List.append_nil]
        exact h.left t' hl
    · rw [if_neg hready] at hstep
      cases hstep

/-- **The scores of the games.** Whatever the threads do, and in whatever order:

* the scores of the game of a channel are the numbers of answers that the users have given since it
  was started;
* in a game that is on, nobody has ten answers, and there have been at most fifteen words, all
  answers among them;
* while the lock is left taken, a game is over, and what has been said last is that somebody has won
  who has given ten answers or more, or that there have been too many words;
* when a thread looks at a word in a game in which nobody has ten answers and there have been at
  most fifteen words, it gives the lock back and this stays so; or the game ends: the last answer of
  all was the tenth of a user, nobody else has ten, and this user is told to have won; or nobody has
  ten, and there have been fifteen words.

**Proof sketch.** Nobody has ten answers before a word is looked at, so the one who has ten after it
is the one who said it (`Playing.answer`). The status that a thread has seen may be out of date when
it takes the lock, but the game in the map has been started (`Kept.isSome_answers`), and in a game
that is over a late word only adds to the counts (`Tallied.answer`). -/
theorem scores_exact {ls : List (ℕ × QuizAct)} {s : Quiz} (h : Run (Fun step) start ls s) :
    (∀ chan given, answers s.history chan = some given →
      Tallied given (gameOf s.ewqstat chan)) ∧
    (∀ chan given, answers s.history chan = some given → (gameOf s.ewqstat chan).status = 1 →
      Playing given (gameOf s.ewqstat chan)) ∧
    (∀ t, s.taken = some t → ∃ chan given, answers s.history chan = some given ∧
      (gameOf s.ewqstat chan).status = 0 ∧
        Announced chan given (gameOf s.ewqstat chan) s.ops) ∧
    ∀ t env s' chan nick msg given, s.threads t = .waiting chan nick msg →
      s.step (t, .answer env) = some s' → answers s.history chan = some given →
      Playing given (gameOf s.ewqstat chan) →
      ∃ given', answers s'.history chan = some given' ∧
        (s'.taken = none ∧ Playing given' (gameOf s'.ewqstat chan) ∨
          s'.taken = some t ∧ (gameOf s'.ewqstat chan).status = 0 ∧
            EndsWith chan given' (gameOf s'.ewqstat chan) s'.ops) := by
  have hkept : s.Kept := h.preserves (I := Kept) (fun _ _ _ hs hstep => hs.step hstep) kept_start
  refine ⟨fun chan given hgiven => (hkept.game hgiven).1,
    fun chan given hgiven => (hkept.game hgiven).2, hkept.left, ?_⟩
  intro t env s' chan nick msg given hpc hstep hgiven hplaying
  have hanswer : s.answerStep t env chan nick msg = some s' := by
    simp only [Quiz.step, hpc] at hstep
    split_ifs at hstep
    exact hstep
  obtain ⟨ops, result, hquiz, htaken, hops, -, -, hanswers, -⟩ := answerStep_chan hgiven hanswer
  refine ⟨_, hanswers, ?_⟩
  rcases hplaying.answer hquiz with ⟨hfree, hgoes⟩ | ⟨hleft, hstatus, hends⟩
  · exact .inl ⟨by rw [htaken, hfree]; rfl, hgoes⟩
  · refine .inr ⟨by rw [htaken, if_pos hleft], hstatus, ?_⟩
    rw [hops, List.append_cons]
    exact hends.append _

/-- A game is started, and a user gives an answer. -/
def oneAnswer : List (ℕ × QuizAct) :=
  [(0, .command (bytes "abc") 0 (bytes "#c") []),
    (0, .look ⟨⟨bytes "n!u@h", bytes "n", bytes "u", bytes "h"⟩,
      .init (bytes "#c") .normal .chan false, bytes "cde"⟩),
    (0, .check), (0, .answer ⟨[bytes "cde"], fun _ _ => 0, fun _ => none, fun _ => 0⟩)]

/-- The user has one answer. -/
theorem scores_exact_one : ∃ s, Run (Fun step) start oneAnswer s ∧
    (gameOf s.ewqstat (bytes "#C")).userstat.get? (bytes "n") = some 1 := by
  obtain ⟨s, hrun, hanswers⟩ : ∃ s, Run (Fun step) start oneAnswer s ∧
      answers s.history (bytes "#C") = some [bytes "n"] :=
    Run.exists_of_foldlM (by decide +kernel)
  refine ⟨s, hrun, ?_⟩
  rw [((scores_exact hrun).1 _ _ hanswers).userstat]
  rfl

end Quiz

end Meowbot
