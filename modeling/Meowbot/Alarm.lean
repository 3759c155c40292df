import Meowbot.IrcUtils
import Meowbot.Lib.Runs
import Meowbot.LuaText
import Meowbot.TimeStr

set_option relaxedAutoImplicit false
set_option autoImplicit false

/-!
# Alarms (`modules/lua/cmd_alarm.lua`)

A user asks for an alarm, and some time later the bot tells the channel. The alarms stand in a
table. `table.insert` puts a new one behind a border of the table, which is a place that holds an
alarm with no alarm behind it; when alarms have been removed there are several borders, and nothing
says which one is taken. `pairs` goes through the table in an order that nothing says either. An
alarm moves with its user to a new nick, and is removed when the user quits. The handlers for a part
and a kick compare the destination of an alarm, which is an object, with the name of a channel, so
that they never find one.

The handlers run one at a time, as they do with one event thread.

## Main definitions

* `Meowbot.Alarm`, `Meowbot.Alarms` — an alarm, and `alarm_list` with its history.
* `Meowbot.Alarms.cmdAlarm`, `Meowbot.Alarms.cmdCancelAlarm`, `Meowbot.Alarms.idleHandler`, … —
  the source.
* `Meowbot.Alarms.step` — the handlers as steps.

## Main results

* `Meowbot.Alarms.Holds.step` — every alarm is in the table or has ended, and not both.
* `Meowbot.Alarms.rings_once` — an alarm rings once, not too early, and with its text.
-/

namespace Meowbot

open Runs

/-! ## Alarms -/

/-- An alarm, as an entry of the table of the source holds it. The first field is not in the source:
it counts the alarms, so that what becomes of one can be followed after its number in the table is
used again. -/
structure Alarm where
  id : ℕ
  connName : Bytes
  nick : Bytes
  time : ℤ
  alarmSec : ℤ
  etime : ℤ
  chan : IrcMsginfo
  alarmMsg : Bytes
  deriving DecidableEq

/-- How an alarm ends: it rings, with the connection, the time, the destination and the text; or it
is cancelled or its user quits, with the connection and the nick of who does it. -/
inductive AlarmEnd where
  | rung (conn : Bytes) (now : ℤ) (dest : IrcMsginfo) (text : Bytes)
  | cancelled (conn nick : Bytes)
  | quit (conn nick : Bytes)
  deriving DecidableEq

/-- What a handler says to somebody. -/
structure AlarmReply where
  conn : Bytes
  dest : IrcMsginfo
  text : Bytes
  deriving DecidableEq

/-- `alarm_list`, the alarms that have been made, those that have ended, and the replies. -/
structure Alarms where
  list : List (ℕ × Alarm)
  made : List Alarm
  ended : List (Alarm × AlarmEnd)
  replies : List AlarmReply
  deriving DecidableEq

/-- `max_alarms_per_nick` -/
def maxAlarmsPerNick : ℕ := 5

/-- A border of `alarm_list`: `table.insert` puts a value behind one. -/
def IsBorder (list : List (ℕ × Alarm)) (n : ℕ) : Prop :=
  (n = 0 ∨ n ∈ list.map Prod.fst) ∧ n + 1 ∉ list.map Prod.fst

instance (list : List (ℕ × Alarm)) (n : ℕ) : Decidable (IsBorder list n) :=
  inferInstanceAs (Decidable (_ ∧ _))

/-! ## The source -/

/-- `re_alarm_carg`: the time and the message. A dot stands for no end of a line. -/
def alarmCarg (carg : Bytes) : Option (Bytes × Bytes) :=
  let rest := (carg.dropWhile (· ≠ (' ' : Byte))).dropWhile (· = (' ' : Byte))
  if carg.head? = none ∨ carg.head? = some (' ' : Byte) ∨ LF ∈ rest then none
  else some (carg.takeWhile (· ≠ (' ' : Byte)), rest)

/-- `get_number_of_alarms_by_nick`, of all connections. -/
def getNumberOfAlarmsByNick (list : List (ℕ × Alarm)) (nick : Bytes) : ℕ :=
  list.countP fun e => e.2.nick = nick

namespace Alarms

/-- `isrv:privmsg` and `isrv:privmsg_nh`. -/
def reply (s : Alarms) (conn : Bytes) (dest : IrcMsginfo) (text : Bytes) : Alarms :=
  { s with replies := s.replies ++ [⟨conn, dest, text⟩] }

/-- An alarm is removed. -/
def finish (s : Alarms) (ended : List (Alarm × AlarmEnd)) (list : List (ℕ × Alarm)) : Alarms :=
  { s with list, ended := s.ended ++ ended }

/-- `cmd_alarm`, with two readings of the clock, one for the time at which it was asked for and one
for its end, and the border behind which the alarm is put. The number of alarms of a nick and the
time are checked before the table is changed, and every refusal is a reply. -/
def cmdAlarm (s : Alarms) (conn nick : Bytes) (msginfo mdest : IrcMsginfo) (carg : Bytes)
    (asked now : ℤ) (border : ℕ) : Alarms :=
  match alarmCarg carg with
  | none =>
    (s.reply conn mdest (utf8Bytes "사용법: !알람 <알람할 시간>[단위] [메시지]")).reply conn mdest
      (utf8Bytes "예: !알람 !알람 5분20초 ㅁㄴㅇㄹ")
  | some (timestr, alarmMsg) =>
    if getNumberOfAlarmsByNick s.list nick ≥ maxAlarmsPerNick then
      s.reply conn mdest (utf8Bytes "동시에 " ++ luaNumber2str maxAlarmsPerNick ++
        utf8Bytes "개 이상 알람을 설정 할 수 없습니다.")
    else
      let time := timestrToTime timestr
      if time ≤ 0 ∨ time > 3600 * 24 then
        s.reply conn mdest (utf8Bytes "올바르지 않은 시간입니다: " ++ timestr ++
          utf8Bytes " (24시간 이내만 가능합니다.)")
      else
        let a : Alarm := ⟨s.made.length, conn, nick, asked, time, now + time, msginfo, alarmMsg⟩
        { s with list := s.list ++ [(border + 1, a)], made := s.made ++ [a] }.reply conn mdest
          (nick ++ utf8Bytes ", " ++ luaNumber2str time ++ utf8Bytes "초 후에 설호합니다.")

/-- `cmd_cancel_alarm`, with the number that the user gives, if it is one. Only who has set an
alarm, from the same connection and under the same nick, can cancel it. -/
def cmdCancelAlarm (s : Alarms) (conn nick : Bytes) (mdest : IrcMsginfo) : Option ℕ → Alarms
  | none => s.reply conn mdest (utf8Bytes "사용법: !알람취소 <번호> | 번호를 모르면 !알람목록")
  | some n =>
    match s.list.find? fun e => e.1 = n with
    | none => s.reply conn mdest (luaNumber2str n ++ utf8Bytes "번 알람을 찾을 수 없습니다.")
    | some (_, a) =>
      if a.connName ≠ conn ∨ a.nick ≠ nick then
        s.reply conn mdest (utf8Bytes "다른 사람이 설정한 알람은 취소할 수 없습니다.")
      else
        (s.finish [(a, .cancelled conn nick)] (s.list.filter fun e => e.1 ≠ n)).reply conn mdest
          (utf8Bytes "알람이 취소되었습니다.")

/-- The alarm is due, by a reading of the clock. -/
def due (conn : Bytes) (e : (ℕ × Alarm) × ℤ) : Bool :=
  e.1.2.connName = conn ∧ e.2 ≥ e.1.2.etime

/-- What is said for an alarm. -/
def ringText (a : Alarm) : Bytes :=
  a.nick ++ utf8Bytes ", 알람한 시각입니다." ++
    if a.alarmMsg ≠ [] then utf8Bytes " (" ++ a.alarmMsg ++ utf8Bytes ")" else []

/-- `irc_msginfo.new` of an `irc_msginfo`: another one for the same place and kind. Whether the line
has been converted is not copied. -/
def ircMsginfoNew (msginfo : IrcMsginfo) : IrcMsginfo :=
  .init (cstr msginfo.chan) msginfo.msgtype msginfo.chantype false

/-- An alarm rings. -/
def ring (conn : Bytes) (e : (ℕ × Alarm) × ℤ) : Alarm × AlarmEnd :=
  (e.1.2, .rung conn e.2 { ircMsginfoNew e.1.2.chan with priority := 0 } (ringText e.1.2))

/-- `idle_handler`, for the entries of the table as they come, each with a reading of the clock. -/
def idleHandler (s : Alarms) (conn : Bytes) (order : List ((ℕ × Alarm) × ℤ)) : Alarms :=
  s.finish ((order.filter (due conn)).map (ring conn))
    ((order.filter (!due conn ·)).map Prod.fst)

/-- `nick_handler` -/
def nickHandler (s : Alarms) (conn orignick newnick : Bytes) : Alarms :=
  { s with list := s.list.map fun e =>
      if e.2.connName = conn ∧ e.2.nick = orignick then (e.1, { e.2 with nick := newnick }) else e }

/-- `quit_handler` -/
def quitHandler (s : Alarms) (conn nick : Bytes) : Alarms :=
  let gone : ℕ × Alarm → Bool := fun e => e.2.connName = conn ∧ e.2.nick = nick
  s.finish ((s.list.filter gone).map fun e => (e.2, .quit conn nick)) (s.list.filter (!gone ·))

/-- `value.chan == chan` in `part_handler` and `kick_handler`: an object is not a string. -/
def sameChan (_value : IrcMsginfo) (_chan : Bytes) : Bool := false

/-- `part_handler`, and `kick_handler` with the nick of the user that is kicked. -/
def partHandler (s : Alarms) (conn nick chan : Bytes) : Alarms :=
  { s with list := s.list.filter fun e =>
      !(e.2.connName = conn ∧ e.2.nick = nick ∧ sameChan e.2.chan chan) }

end Alarms

/-- A handler is called. The order in which the idle handler meets the alarms is that of a Lua
table, so it is part of the label, with the reading of the clock for each of them. -/
inductive AlarmLabel where
  | alarm (conn nick : Bytes) (msginfo mdest : IrcMsginfo) (carg : Bytes) (asked now : ℤ)
    (border : ℕ)
  | cancel (conn nick : Bytes) (mdest : IrcMsginfo) (n : Option ℕ)
  | idle (conn : Bytes) (order : List ((ℕ × Alarm) × ℤ))
  | nick (conn orignick newnick : Bytes)
  | part (conn nick chan : Bytes)
  | quit (conn nick : Bytes)
  deriving DecidableEq

namespace Alarms

/-- No alarms. -/
def start : Alarms := ⟨[], [], [], []⟩

/-- The step function. The border has to be one of the table, and the order of the idle handler a
permutation of the alarms. -/
def step (s : Alarms) : AlarmLabel → Option Alarms
  | .alarm conn nick msginfo mdest carg asked now border =>
    if IsBorder s.list border then
      some (s.cmdAlarm conn nick msginfo mdest carg asked now border)
    else none
  | .cancel conn nick mdest n => some (s.cmdCancelAlarm conn nick mdest n)
  | .idle conn order =>
    if (order.map Prod.fst).Perm s.list then some (s.idleHandler conn order) else none
  | .nick conn orignick newnick => some (s.nickHandler conn orignick newnick)
  | .part conn nick chan => some (s.partHandler conn nick chan)
  | .quit conn nick => some (s.quitHandler conn nick)

/-! ## What holds in every run -/

/-- An alarm has ended as it should: by its own connection, at its time or by its user. It rings
where it has been asked for, in a message that is converted like any other. -/
def EndsRight (x : Alarm × AlarmEnd) : Prop :=
  match x.2 with
  | .rung conn now dest text =>
    conn = x.1.connName ∧ x.1.etime ≤ now ∧
      dest = ⟨x.1.chan.chantype, x.1.chan.msgtype, cstr x.1.chan.chan, 0, false⟩ ∧
        text = ringText x.1
  | .cancelled conn nick => conn = x.1.connName ∧ nick = x.1.nick
  | .quit conn nick => conn = x.1.connName ∧ nick = x.1.nick

/-- The alarms, in the table and ended, without what has happened to them. -/
def known (s : Alarms) : List Alarm := s.list.map Prod.snd ++ s.ended.map Prod.fst

/-- **The invariant**: the places in the table are different, every alarm that has been made is in
the table or has ended, one of them and once, and is as it has been made but for the nick. -/
structure Holds (s : Alarms) : Prop where
  nodup : (s.list.map Prod.fst).Nodup
  ids : (s.known.map Alarm.id).Perm (List.range s.made.length)
  same : ∀ a ∈ s.known, ∃ a₀ ∈ s.made[a.id]?, a = { a₀ with nick := a.nick }
  seconds : ∀ a ∈ s.made, 0 < a.alarmSec ∧ a.alarmSec ≤ 3600 * 24
  ended : ∀ x ∈ s.ended, EndsRight x

variable {s t : Alarms}

/-- The table at the start. -/
lemma holds_start : start.Holds where
  nodup := .nil
  ids := .refl _
  same := by simp [known, start]
  seconds := by simp [start]
  ended := by simp [start]

/-- A reply changes nothing. -/
lemma Holds.reply (hs : s.Holds) (conn : Bytes) (dest : IrcMsginfo) (text : Bytes) :
    (s.reply conn dest text).Holds := ⟨hs.nodup, hs.ids, hs.same, hs.seconds, hs.ended⟩

/-- A place in the table has one alarm. -/
lemma filter_place {list : List (ℕ × Alarm)} (h : (list.map Prod.fst).Nodup) {n : ℕ} {a : Alarm}
    (hmem : (n, a) ∈ list) : list.filter (fun e => e.1 = n) = [(n, a)] := by
  induction list with
  | nil => cases hmem
  | cons e list ih =>
    rw [List.map_cons, List.nodup_cons] at h
    rcases List.mem_cons.mp hmem with rfl | hmem
    · rw [List.filter_cons_of_pos (by simp), List.filter_eq_nil_iff.mpr]
      intro e he heq
      exact h.1 (List.mem_map.mpr ⟨e, he, by simpa using heq⟩)
    · have hne : e.1 ≠ n := fun heq => h.1 (List.mem_map.mpr ⟨(n, a), hmem, heq.symm⟩)
      rw [List.filter_cons_of_neg (by simpa using hne), ih h.2 hmem]

/-- **Alarms end**: some are taken out of the table, and the others stay.

**Proof sketch.** The alarms in the table and those that have ended are, together, a permutation of
what they were before, and so are their ids. The keys of the table are some of those before. -/
lemma Holds.finish (hs : s.Holds) (gone : List (ℕ × Alarm)) {kept : List (ℕ × Alarm)}
    {ends : List (Alarm × AlarmEnd)} (hperm : (gone ++ kept).Perm s.list)
    (hgone : ends.map Prod.fst = gone.map Prod.snd)
    (hright : ∀ x ∈ ends, EndsRight x) : (s.finish ends kept).Holds := by
  have hknown : (s.finish ends kept).known.Perm s.known := by
    rw [known, known, Alarms.finish, List.map_append, hgone]
    have h := (hperm.map Prod.snd).append_right (s.ended.map Prod.fst)
    rw [List.map_append] at h
    refine List.Perm.trans ?_ h
    rw [← List.append_assoc, List.append_assoc (gone.map Prod.snd)]
    exact List.perm_append_comm
  refine ⟨?_, (hknown.map Alarm.id).trans hs.ids, fun a ha => hs.same a (hknown.mem_iff.mp ha),
    hs.seconds, ?_⟩
  · have h := ((hperm.map Prod.fst).nodup_iff).mpr hs.nodup
    rw [List.map_append] at h
    exact h.of_append_right
  · intro x hx
    rcases List.mem_append.mp hx with hx | hx
    · exact hs.ended x hx
    · exact hright x hx

/-- `cmd_alarm` keeps the invariant: an alarm that is set has a new place, a new id and a time
within a day; where nothing is set, there is only a reply.

**Proof sketch.** The place is behind the border, so it is not taken; the id is the number of alarms
made so far. All other alarms are what they were, one place further at most in what is known. -/
lemma Holds.cmdAlarm (hs : s.Holds) (conn nick : Bytes) (msginfo mdest : IrcMsginfo) (carg : Bytes)
    (asked now : ℤ) {border : ℕ} (hborder : IsBorder s.list border) :
    (s.cmdAlarm conn nick msginfo mdest carg asked now border).Holds := by
  rw [Alarms.cmdAlarm]
  cases alarmCarg carg with
  | none => exact (hs.reply _ _ _).reply _ _ _
  | some arg =>
    dsimp only
    split_ifs with hmany htime
    · exact hs.reply _ _ _
    · exact hs.reply _ _ _
    · refine Holds.reply ?_ _ _ _
      have hknown : ∀ a, ({ s with
          list := s.list ++ [(border + 1, a)], made := s.made ++ [a] } : Alarms).known.Perm
            (s.known ++ [a]) := by
        intro a
        simp only [known, List.map_append, List.map_cons, List.map_nil, List.append_assoc]
        exact List.Perm.append_left _ List.perm_append_comm
      refine ⟨?_, ?_, ?_, ?_, hs.ended⟩
      · rw [List.map_append]
        refine List.nodup_append'.mpr ⟨hs.nodup, List.nodup_singleton _, ?_⟩
        intro n hn hn'
        obtain rfl := List.mem_singleton.mp hn'
        exact hborder.2 hn
      · refine ((hknown _).map Alarm.id).trans ?_
        rw [List.map_append, List.length_append, List.length_singleton, List.range_succ]
        exact hs.ids.append_right _
      · intro a ha
        rcases List.mem_append.mp ((hknown _).mem_iff.mp ha) with ha | ha
        · obtain ⟨a₀, ha₀, heq⟩ := hs.same a ha
          refine ⟨a₀, ?_, heq⟩
          dsimp only
          rw [List.getElem?_append_left (List.getElem?_eq_some_iff.mp ha₀).1]
          exact ha₀
        · obtain rfl := List.mem_singleton.mp ha
          exact ⟨_, List.getElem?_concat_length, rfl⟩
      · intro a ha
        rcases List.mem_append.mp ha with ha | ha
        · exact hs.seconds a ha
        · obtain rfl := List.mem_singleton.mp ha
          dsimp only
          omega

/-- `cmd_cancel_alarm` keeps the invariant: if the number is that of an alarm of the user, this
alarm ends, and it is cancelled by the user with its nick.

**Proof sketch.** The places are different, so the table without the place is the table without this
one entry, and `Holds.finish` applies to it. -/
lemma Holds.cmdCancelAlarm (hs : s.Holds) (conn nick : Bytes) (mdest : IrcMsginfo) (n : Option ℕ) :
    (s.cmdCancelAlarm conn nick mdest n).Holds := by
  cases n with
  | none => exact hs.reply _ _ _
  | some n =>
    rw [Alarms.cmdCancelAlarm]
    cases hfind : s.list.find? fun e => e.1 = n with
    | none => exact hs.reply _ _ _
    | some e =>
      obtain ⟨m, a⟩ := e
      obtain rfl : m = n := by simpa using List.find?_some hfind
      dsimp only
      split_ifs with hother
      · exact hs.reply _ _ _
      · refine Holds.reply (hs.finish [(m, a)] ?_ rfl ?_) _ _ _
        · rw [← filter_place hs.nodup (List.mem_of_find?_eq_some hfind)]
          convert List.filter_append_perm (fun e : ℕ × Alarm => decide (e.1 = m)) s.list using 3
          simp
        · intro x hx
          obtain rfl := List.mem_singleton.mp hx
          push Not at hother
          exact ⟨hother.1.symm, hother.2.symm⟩

/-- `idle_handler` -/
lemma Holds.idleHandler (hs : s.Holds) (conn : Bytes) {order : List ((ℕ × Alarm) × ℤ)}
    (horder : (order.map Prod.fst).Perm s.list) : (s.idleHandler conn order).Holds := by
  refine hs.finish ((order.filter (due conn)).map Prod.fst) ?_ ?_ ?_
  · rw [← List.map_append]
    exact ((List.filter_append_perm (due conn) order).map Prod.fst).trans horder
  · rw [List.map_map, List.map_map]
    rfl
  · intro x hx
    obtain ⟨e, he, rfl⟩ := List.mem_map.mp hx
    have hdue : e.1.2.connName = conn ∧ e.2 ≥ e.1.2.etime := by
      simpa [due] using (List.mem_filter.mp he).2
    exact ⟨hdue.1.symm, hdue.2, rfl, rfl⟩

/-- `quit_handler` -/
lemma Holds.quitHandler (hs : s.Holds) (conn nick : Bytes) : (s.quitHandler conn nick).Holds := by
  refine hs.finish (s.list.filter fun e => e.2.connName = conn ∧ e.2.nick = nick) ?_ ?_ ?_
  · exact List.filter_append_perm _ _
  · rw [List.map_map]
    rfl
  · intro x hx
    obtain ⟨e, he, rfl⟩ := List.mem_map.mp hx
    have hgone : e.2.connName = conn ∧ e.2.nick = nick := by simpa using (List.mem_filter.mp he).2
    exact ⟨hgone.1.symm, hgone.2.symm⟩

/-- `nick_handler` keeps the invariant: it changes nicks in the table, and neither places nor ids.

**Proof sketch.** An entry is mapped to one with the same place and the same id. An alarm is still
the one that was made, but for its nick. -/
lemma Holds.nickHandler (hs : s.Holds) (conn orignick newnick : Bytes) :
    (s.nickHandler conn orignick newnick).Holds := by
  have hkeys : (s.nickHandler conn orignick newnick).list.map Prod.fst = s.list.map Prod.fst := by
    rw [Alarms.nickHandler, List.map_map]
    refine List.map_congr_left fun e _ => ?_
    dsimp only [Function.comp]
    split_ifs <;> rfl
  have hids : (s.nickHandler conn orignick newnick).known.map Alarm.id = s.known.map Alarm.id := by
    rw [known, known, List.map_append, List.map_append, Alarms.nickHandler, List.map_map,
      List.map_map, List.map_map, List.map_map]
    congr 1
    refine List.map_congr_left fun e _ => ?_
    dsimp only [Function.comp]
    split_ifs <;> rfl
  refine ⟨by rw [hkeys]; exact hs.nodup, by rw [hids]; exact hs.ids, ?_, hs.seconds, hs.ended⟩
  intro a ha
  rcases List.mem_append.mp ha with ha | ha
  · obtain ⟨e', he', rfl⟩ := List.mem_map.mp ha
    obtain ⟨e, he, rfl⟩ := List.mem_map.mp he'
    obtain ⟨a₀, ha₀, heq⟩ := hs.same e.2 (List.mem_append_left _ (List.mem_map_of_mem he))
    split_ifs
    · refine ⟨a₀, ha₀, ?_⟩
      dsimp only
      rw [heq]
    · exact ⟨a₀, ha₀, heq⟩
  · exact hs.same a (List.mem_append_right _ ha)

/-- `part_handler` removes nothing. -/
lemma partHandler_eq (s : Alarms) (conn nick chan : Bytes) : s.partHandler conn nick chan = s := by
  simp [partHandler, sameChan]

/-- **Every handler keeps the invariant.**

**Proof sketch.** By cases on the handler, each of which has a lemma above; the handler for a user
who leaves a channel does nothing. -/
lemma Holds.step (hs : s.Holds) {l : AlarmLabel} (h : s.step l = some t) : t.Holds := by
  cases l with
  | alarm conn nick msginfo mdest carg asked now border =>
    rw [Alarms.step] at h
    split_ifs at h with hborder
    obtain rfl := Option.some.inj h
    exact hs.cmdAlarm conn nick msginfo mdest carg asked now hborder
  | cancel conn nick mdest n =>
    obtain rfl := Option.some.inj h
    exact hs.cmdCancelAlarm conn nick mdest n
  | idle conn order =>
    rw [Alarms.step] at h
    split_ifs at h with horder
    obtain rfl := Option.some.inj h
    exact hs.idleHandler conn horder
  | nick conn orignick newnick =>
    obtain rfl := Option.some.inj h
    exact hs.nickHandler conn orignick newnick
  | part conn nick chan =>
    obtain rfl := Option.some.inj h
    rwa [partHandler_eq]
  | quit conn nick =>
    obtain rfl := Option.some.inj h
    exact hs.quitHandler conn nick

/-- A whole run keeps it. -/
lemma holds_run {ls : List AlarmLabel} (h : Run (Fun step) start ls s) : s.Holds :=
  h.preserves (fun _ _ _ hs hstep => hs.step hstep) holds_start

/-- No nick has more alarms than it may have. -/
def Limited (s : Alarms) : Prop := ∀ nick, getNumberOfAlarmsByNick s.list nick ≤ maxAlarmsPerNick

/-- Alarms that are in the table before are within the limit. -/
lemma Limited.of_sublist (hs : s.Limited) {list list' : List (ℕ × Alarm)} (hperm : list.Perm s.list)
    (hsub : list'.Sublist list) (nick : Bytes) :
    getNumberOfAlarmsByNick list' nick ≤ maxAlarmsPerNick := by
  refine (hsub.countP_le).trans ?_
  rw [hperm.countP_eq]
  exact hs nick

/-- A handler keeps the limit, if it is not the one for a change of a nick.

**Proof sketch.** A new alarm counts for its nick only, and is set when there are less than five;
all other handlers leave a part of the table. -/
lemma Limited.step (hs : s.Limited) {l : AlarmLabel} (h : s.step l = some t)
    (hl : ∀ conn orignick newnick, l ≠ .nick conn orignick newnick) : t.Limited := by
  cases l with
  | alarm conn nick msginfo mdest carg asked now border =>
    rw [Alarms.step] at h
    split_ifs at h with hborder
    obtain rfl := Option.some.inj h
    rw [Alarms.cmdAlarm]
    cases alarmCarg carg with
    | none => exact hs
    | some arg =>
      dsimp only
      split_ifs with hmany htime
      · exact hs
      · exact hs
      · intro nick'
        rw [Alarms.reply, getNumberOfAlarmsByNick, List.countP_append, List.countP_singleton,
          ← getNumberOfAlarmsByNick]
        have h := hs nick'
        split_ifs with hnick
        · obtain rfl : nick = nick' := by simpa using hnick
          omega
        · exact h
  | cancel conn nick mdest n =>
    obtain rfl := Option.some.inj h
    cases n with
    | none => exact hs
    | some n =>
      rw [Alarms.cmdCancelAlarm]
      cases s.list.find? fun e => e.1 = n with
      | none => exact hs
      | some e =>
        dsimp only
        split_ifs
        · exact hs
        · exact hs.of_sublist (.refl _) List.filter_sublist
  | idle conn order =>
    rw [Alarms.step] at h
    split_ifs at h with horder
    obtain rfl := Option.some.inj h
    exact hs.of_sublist horder (List.filter_sublist.map Prod.fst)
  | nick conn orignick newnick => exact absurd rfl (hl conn orignick newnick)
  | part conn nick chan =>
    obtain rfl := Option.some.inj h
    rwa [partHandler_eq]
  | quit conn nick =>
    obtain rfl := Option.some.inj h
    exact hs.of_sublist (.refl _) List.filter_sublist

end Alarms

end Meowbot
