/- GID: HasherPriv/JobService/StringCodec
   layer: job service
   source: caller_job.c, hasher-priv.c
   digest: The scans of recv_strings_from_client on checked memory, and the string list they recover. -/

import HasherPriv.Foundations.Answers
import HasherPriv.Foundations.Memory
import HasherPriv.JobService.Agreement

set_option autoImplicit false
set_option relaxedAutoImplicit false

namespace HasherPriv.JobService.StringCodec

open Foundations.Answers (Lives Returning)
open Foundations.ByteString (Bytes CString)
open Foundations.Memory
open Foundations.Program
open Foundations.Socket
open Protocol.Communication
open Protocol.Pass
open Client.Main
open Agreement (encodeStrings_cons ofPrefix_terminated stringsOf_encodeStrings sendEach
  sendStrings_eq)
open CallerJob hiding rawmemchr

/-! `recv_strings_from_client` after the allocation, on checked memory. A pointer is an offset into
`args`, and `none` among the pointers is the null pointer. -/

/-- The `len` bytes are received into the allocation and terminated. -/
def fillArgs (allocated data : Bytes) : Option Bytes := do
  let args ← store allocated 0 data
  store args data.length [0]

def rawmemchr (args : Bytes) (p : ℕ) : Option ℕ := seek (· = 0) args p

/-- The first loop; `n` counts the strings. -/
def countStrings (args : Bytes) (len : ℕ) : ℕ → ℕ → ℕ → Option ℕ
  | 0, _, _ => none
  | fuel + 1, p, n =>
      if p < len then do
        let nul ← rawmemchr args p
        countStrings args len fuel (nul + 1) (n + 1)
      else some n

/-- The second loop; `n` counts the pointers that are stored in `av`. -/
def storeStrings (args : Bytes) (len : ℕ) :
    ℕ → ℕ → ℕ → List (Option ℕ) → Option (ℕ × List (Option ℕ))
  | 0, _, _, _ => none
  | fuel + 1, p, n, av =>
      if p < len then do
        let av ← store av n [some p]
        let nul ← rawmemchr args p
        storeStrings args len fuel (nul + 1) (n + 1) av
      else some (n, av)

/-- What the two loops leave behind. -/
structure Argv where
  args : Bytes
  counted : ℕ
  stored : ℕ
  av : List (Option ℕ)
  deriving DecidableEq

def parseArgs (fuel : ℕ) (allocated data : Bytes) : Option Argv := do
  let args ← fillArgs allocated data
  let counted ← countStrings args data.length fuel 0 0
  -- `calloc`
  let av := List.replicate (counted + 1) none
  let (stored, av) ← storeStrings args data.length fuel 0 0 av
  return ⟨args, counted, stored, av⟩

/-- The strings of an argument vector, up to its null pointer. -/
def Argv.strings (v : Argv) : List CString :=
  (v.av.takeWhile Option.isSome).reduceOption.map fun p => CString.ofPrefix (v.args.drop p)

/-! The loops. -/

theorem fillArgs_eq {allocated data : Bytes} (h : allocated.length = data.length + 1) :
    fillArgs allocated data = some (data ++ [0]) := by
  have hfirst : store allocated 0 data = some (data ++ allocated.drop data.length) := by
    rw [store_eq (by omega), List.take_zero, List.nil_append, Nat.zero_add]
  have hlen := store_length hfirst
  have hlast : data.length + 1 ≤ (data ++ allocated.drop data.length).length := by omega
  rw [fillArgs, hfirst, Option.bind_eq_bind, Option.bind_some, store_eq hlast, List.take_left,
    List.length_singleton, List.drop_of_length_le (by omega), List.append_nil]

section Loops

variable {data : Bytes} {p : ℕ}

/-- The terminator stops every search. -/
theorem rawmemchr_eq (h : p ≤ data.length) :
    rawmemchr (data ++ [0]) p = some (CallerJob.rawmemchr (data ++ [0]) p) := by
  apply seek_eq
  refine ⟨0, ?_, decide_eq_true rfl⟩
  rw [List.drop_append_of_le_length h]
  exact List.mem_append_right _ (List.mem_singleton_self 0)

theorem le_rawmemchr : p ≤ CallerJob.rawmemchr (data ++ [0]) p := Nat.le_add_right _ _

private theorem scan_of_le {args : Bytes} {len k p : ℕ} (h : len ≤ p) : scan args len k p = [] := by
  cases k with
  | zero => rfl
  | succ k => rw [scan, if_neg (by omega)]

/-- The first loop ends, and has counted the positions of the scan. -/
theorem countStrings_eq {fuel k : ℕ} (n : ℕ) (hfuel : data.length < min p data.length + fuel)
    (hk : data.length ≤ p + k) :
    countStrings (data ++ [0]) data.length fuel p n =
      some (n + (scan (data ++ [0]) data.length k p).length) := by
  induction fuel generalizing p n k with
  | zero => omega
  | succ fuel ih =>
      by_cases hlt : p < data.length
      · obtain ⟨k, rfl⟩ : ∃ j, k = j + 1 := ⟨k - 1, by omega⟩
        have hle : p ≤ CallerJob.rawmemchr (data ++ [0]) p := le_rawmemchr
        rw [countStrings, if_pos hlt, rawmemchr_eq (Nat.le_of_lt hlt), Option.bind_eq_bind,
          Option.bind_some, @ih _ k (n + 1) (by omega) (by omega), scan, if_pos hlt,
          List.length_cons]
        congr 1
        omega
      · rw [countStrings, if_neg hlt, scan_of_le (Nat.le_of_not_lt hlt)]
        rfl

/-- The second loop ends, and has stored the positions of the scan one after the other. -/
theorem storeStrings_eq {fuel k n : ℕ} {av : List (Option ℕ)}
    (hfuel : data.length < min p data.length + fuel) (hk : data.length ≤ p + k)
    (hav : n + (scan (data ++ [0]) data.length k p).length ≤ av.length) :
    storeStrings (data ++ [0]) data.length fuel p n av =
      some (n + (scan (data ++ [0]) data.length k p).length,
        av.take n ++ (scan (data ++ [0]) data.length k p).map some ++
          av.drop (n + (scan (data ++ [0]) data.length k p).length)) := by
  induction fuel generalizing p n k av with
  | zero => omega
  | succ fuel ih =>
      by_cases hlt : p < data.length
      · obtain ⟨k, rfl⟩ : ∃ j, k = j + 1 := ⟨k - 1, by omega⟩
        have hle : p ≤ CallerJob.rawmemchr (data ++ [0]) p := le_rawmemchr
        rw [scan, if_pos hlt, List.length_cons] at hav
        obtain ⟨av', hstore⟩ : ∃ av', store av n [some p] = some av' := by
          refine ⟨_, store_eq ?_⟩
          rw [List.length_singleton]
          omega
        have hlen : av'.length = av.length := store_length hstore
        have hfront : av'.take (n + 1) = av.take n ++ [some p] := store_take hstore
        have hrest := @ih (CallerJob.rawmemchr (data ++ [0]) p + 1) k (n + 1) av' (by omega)
          (by omega) (by omega)
        have hback : ∀ j, av'.drop (n + 1 + j) = av.drop (n + 1 + j) :=
          fun j => store_drop hstore (Nat.le_add_right _ _)
        rw [hfront, hback] at hrest
        rw [storeStrings, if_pos hlt, hstore, rawmemchr_eq (Nat.le_of_lt hlt)]
        simp only [Option.bind_eq_bind, Option.bind_some]
        rw [hrest, scan, if_pos hlt, List.length_cons, List.map_cons,
          Nat.add_comm (List.length _) 1, ← Nat.add_assoc, List.append_assoc _ [some p]]
        rfl
      · rw [storeStrings, if_neg hlt, scan_of_le (Nat.le_of_not_lt hlt)]
        simp

/-- What re-encoding gives. -/
def closed (b : Bytes) : Bytes := if b = [] ∨ b.getLast? = some 0 then b else b ++ [0]

theorem closed_append_zero (s b : Bytes) : closed (s ++ 0 :: b) = s ++ 0 :: closed b := by
  cases b with
  | nil => simp [closed]
  | cons c b =>
      have hlast : (s ++ 0 :: c :: b).getLast? = (c :: b).getLast? := by
        rw [List.getLast?_append, List.getLast?_cons_cons, List.getLast?_cons]
        rfl
      unfold closed
      rw [hlast]
      by_cases hzero : (c :: b).getLast? = some 0
      · rw [if_pos (Or.inr hzero), if_pos (Or.inr hzero)]
      · rw [if_neg (by simp [hzero]), if_neg (by simp [hzero])]
        simp

/-- Data starts with a terminated string, or is one that lacks its terminator. -/
private theorem string_cases (d : Bytes) :
    (∃ (s : CString) (t : Bytes), d = s.bytes ++ 0 :: t) ∨ ∃ s : CString, d = s.bytes := by
  by_cases hzero : 0 ∈ d
  · obtain ⟨s, t, hd, hfree⟩ := List.eq_append_cons_of_mem hzero
    exact Or.inl ⟨⟨s, hfree⟩, t, hd⟩
  · exact Or.inr ⟨⟨d, hzero⟩, rfl⟩

private theorem rawmemchr_string {args rest : Bytes} {s : CString}
    (h : args.drop p = s.bytes ++ 0 :: rest) :
    CallerJob.rawmemchr args p = p + s.bytes.length := by
  rw [CallerJob.rawmemchr, h, List.idxOf_append_of_notMem s.nulFree, List.idxOf_cons_self,
    Nat.add_zero]

/-- The strings of the scan from `p` on, put after each other, are the data from `p` on. -/
theorem encodeStrings_scan {k : ℕ} (hp : p ≤ data.length) (hk : data.length ≤ p + k) :
    encodeStrings ((scan (data ++ [0]) data.length k p).map fun p =>
      CString.ofPrefix ((data ++ [0]).drop p)) = closed (data.drop p) := by
  induction k generalizing p with
  | zero =>
      rw [scan, List.drop_of_length_le (by omega)]
      rfl
  | succ k ih =>
      by_cases hlt : p < data.length
      · have hargs : (data ++ [0]).drop p = data.drop p ++ [0] := List.drop_append_of_le_length hp
        have hlen : (data.drop p).length = data.length - p := List.length_drop
        rw [scan, if_pos hlt, List.map_cons, encodeStrings_cons, hargs]
        rcases string_cases (data.drop p) with ⟨s, t, hd⟩ | ⟨s, hd⟩
        · have hat : (data ++ [0]).drop p = s.bytes ++ 0 :: (t ++ [0]) := by
            rw [hargs, hd, List.append_assoc, List.cons_append]
          have hnext : data.drop (p + (s.bytes.length + 1)) = t := by
            rw [← List.drop_drop, hd, ← List.drop_drop, List.drop_left]
            rfl
          rw [hd, List.length_append, List.length_cons] at hlen
          rw [rawmemchr_string hat, Nat.add_assoc, ih (by omega) (by omega), hnext, ← hargs, hat,
            ofPrefix_terminated, hd, closed_append_zero]
        · -- the artificial terminator ends the last string
          have hat : (data ++ [0]).drop p = s.bytes ++ 0 :: [] := by rw [hargs, hd]
          have hne : s.bytes ≠ [] := by
            intro hnil
            rw [hd, hnil, List.length_nil] at hlen
            omega
          have hlast : s.bytes.getLast? ≠ some 0 :=
            fun h => s.nulFree (List.mem_of_getLast? h)
          rw [hd] at hlen
          rw [rawmemchr_string hat, scan_of_le (by omega), ← hargs, hat, ofPrefix_terminated, hd,
            closed, if_neg (not_or.mpr ⟨hne, hlast⟩)]
          rfl
      · rw [scan_of_le (Nat.le_of_not_lt hlt), List.drop_of_length_le (Nat.le_of_not_lt hlt)]
        rfl

/-- Re-encoding the strings gives the data, with a terminator where it has none. -/
theorem encodeStrings_stringsOf (data : Bytes) : encodeStrings (stringsOf data) = closed data := by
  have hscan := @encodeStrings_scan data 0 data.length (Nat.zero_le _) (Nat.le_add_left _ _)
  rw [List.drop_zero] at hscan
  exact hscan

end Loops

/-! Both loops together. -/

/-- No access is outside the allocation, and the pointers are those of the scan and a null one. -/
theorem parseArgs_eq {fuel : ℕ} {allocated data : Bytes} (h : allocated.length = data.length + 1)
    (hfuel : data.length < fuel) :
    parseArgs fuel allocated data = some {
      args := data ++ [0]
      counted := (scan (data ++ [0]) data.length data.length 0).length
      stored := (scan (data ++ [0]) data.length data.length 0).length
      av := (scan (data ++ [0]) data.length data.length 0).map some ++ [none] } := by
  have hcount := @countStrings_eq data 0 fuel data.length 0 (by omega) (by omega)
  have hstore := @storeStrings_eq data 0 fuel data.length 0
    (List.replicate ((scan (data ++ [0]) data.length data.length 0).length + 1) none)
    (by omega) (by omega) (by rw [List.length_replicate]; omega)
  rw [Nat.zero_add] at hcount hstore
  unfold parseArgs
  rw [fillArgs_eq h]
  simp only [Option.bind_eq_bind, Option.bind_some]
  rw [hcount, Option.bind_some, hstore, Option.bind_some, List.take_zero, List.nil_append,
    List.drop_replicate, Nat.add_sub_cancel_left]
  rfl

theorem lt_of_mem_scan {args : Bytes} {len k p q : ℕ} (h : q ∈ scan args len k p) : q < len := by
  induction k generalizing p with
  | zero => cases h
  | succ k ih =>
      rw [scan] at h
      split_ifs at h with hlt
      · rcases List.mem_cons.mp h with rfl | h
        · exact hlt
        · exact ih h
      · cases h

theorem strings_of_pointers {args : Bytes} {starts : List ℕ} {m n : ℕ} :
    Argv.strings ⟨args, m, n, starts.map some ++ [none]⟩ =
      starts.map fun p => CString.ofPrefix (args.drop p) := by
  have htake : (starts.map some ++ [none]).takeWhile Option.isSome = starts.map some := by
    rw [List.takeWhile_append_of_pos]
    · rw [List.takeWhile_cons_of_neg (by decide), List.append_nil]
    · intro x hx
      obtain ⟨p, -, rfl⟩ := List.mem_map.mp hx
      rfl
  have hall : (starts.map some).reduceOption = starts := by
    show (starts.map some).filterMap id = starts
    rw [List.filterMap_map]
    exact List.filterMap_some
  rw [Argv.strings]
  dsimp only
  rw [htake, hall]

/-! The stream. -/

/-- A stream socket: what is received is what is in flight, in order. Calls can fail, and a
receive can be cut short. -/
def Delivers : (o : SockOp) → Bytes → SockRes o → Bytes → Prop
  | .recvmsg size _ _, s, some m, s' => m.data.length ≤ size ∧ s = m.data ++ s'
  | .recvmsg _ _ _, s, none, s' => s' = s
  | .sendmsg _ _, s, _, s' | .malloc _, s, _, s' | .calloc _ _, s, _, s' => s' = s

/-- The call fails, or receives less than it waits for. -/
def Fails : Event SockRes → Prop
  | ⟨.recvmsg size _ _, r⟩ => ∀ m, r = some m → m.data.length ≠ size
  | ⟨.malloc _, found⟩ | ⟨.calloc _ _, found⟩ => found = false
  | ⟨.sendmsg _ _, _⟩ => False

private theorem receiveArgs_delivers {data later s' : Bytes} {tr : List (Step Bytes SockRes)}
    {r : Option Bytes}
    (h : Exec (· = ·) Delivers (receiveArgs data.length) (data ++ later) tr (.returned r) s') :
    (r = some data ∧ s' = later) ∨ (r = none ∧ ∃ e ∈ tr, Fails e.event) := by
  unfold receiveArgs at h
  split_ifs at h with hpos
  · obtain ⟨v, v', m, rest, rfl, rfl, hsem, hk⟩ := exec_call h
    cases m with
    | none =>
        obtain ⟨rfl, rfl, rfl⟩ := exec_ret hk
        exact Or.inr ⟨rfl, _, List.mem_singleton_self _, fun m hm => by cases hm⟩
    | some m =>
        obtain ⟨hle, hdata⟩ := hsem
        obtain ⟨rfl, rfl, rfl⟩ := exec_ret hk
        by_cases hfull : m.data.length = data.length
        · obtain ⟨hd, hs⟩ := List.append_inj hdata hfull.symm
          refine Or.inl ⟨?_, hs.symm⟩
          rw [if_pos hfull, hd]
        · refine Or.inr ⟨if_neg hfull, _, List.mem_singleton_self _, ?_⟩
          intro m' hm'
          rw [← Option.some.inj hm']
          exact hfull
  · obtain ⟨rfl, rfl, rfl⟩ := exec_ret h
    have hnil : data = [] := List.eq_nil_of_length_eq_zero (Nat.eq_zero_of_not_pos hpos)
    rw [hnil]
    exact Or.inl ⟨rfl, rfl⟩

/-- The server takes the data off the stream and returns its strings, unless a call fails. -/
theorem recvStrings_delivers {data later s' : Bytes} {len : UInt32}
    {tr : List (Step Bytes SockRes)} {r : Option (List CString)}
    (hmax : data.length ≤ maxArgsSize) (hlen : len.toNat = data.length)
    (h : Exec (· = ·) Delivers (recvStringsFromClient len) (data ++ later) tr (.returned r) s') :
    (r = some (stringsOf data) ∧ s' = later) ∨ (r = none ∧ ∃ e ∈ tr, Fails e.event) := by
  unfold recvStringsFromClient at h
  rw [hlen, if_neg (by omega)] at h
  obtain ⟨v, v', found, rest, rfl, rfl, rfl, h⟩ := exec_call h
  cases found with
  | false =>
      obtain ⟨rfl, rfl, rfl⟩ := exec_ret h
      exact Or.inr ⟨rfl, _, List.mem_cons_self, rfl⟩
  | true =>
      change Exec _ _ ((receiveArgs data.length).bind _) _ _ _ _ at h
      obtain ⟨d, t₁, t₂, v, rfl, h₁, h₂⟩ := exec_bind h
      rcases receiveArgs_delivers h₁ with ⟨rfl, rfl⟩ | ⟨rfl, e, he, hfails⟩
      · obtain ⟨v, v', found, rest, rfl, rfl, rfl, hlast⟩ := exec_call h₂
        cases found with
        | false =>
            obtain ⟨rfl, rfl, rfl⟩ := exec_ret hlast
            refine Or.inr ⟨rfl, ⟨s', ⟨.calloc ((stringsOf data).length + 1) 8, false⟩, s'⟩, ?_, rfl⟩
            exact List.mem_cons_of_mem _ (List.mem_append_right _ List.mem_cons_self)
        | true =>
            obtain ⟨rfl, rfl, rfl⟩ := exec_ret hlast
            exact Or.inl ⟨rfl, rfl⟩
      · obtain ⟨rfl, rfl, rfl⟩ := exec_ret h₂
        exact Or.inr ⟨rfl, e, List.mem_cons_of_mem _ (List.mem_append_left _ he), hfails⟩

private theorem receiveArgs_lives (len : ℕ) : Lives (receiveArgs len) := by
  unfold receiveArgs
  by_cases hpos : 0 < len
  · rw [if_pos hpos]
    intro r
    cases r <;> trivial
  · rw [if_neg hpos]
    trivial

/-- No answer of the kernel makes the server die in the middle of a list. -/
theorem recvStrings_lives (len : UInt32) : Lives (recvStringsFromClient len) := by
  unfold recvStringsFromClient
  by_cases hmax : maxArgsSize < len.toNat
  · rw [if_pos hmax]
    trivial
  · rw [if_neg hmax]
    intro found
    cases found with
    | false => trivial
    | true =>
        refine (receiveArgs_lives len.toNat).bind fun data => ?_
        cases data with
        | none => trivial
        | some data =>
            intro found
            cases found <;> trivial

private theorem receiveArgs_succeeds (data later : Bytes) :
    ∃ tr, Exec (· = ·) Delivers (receiveArgs data.length) (data ++ later) tr
        (.returned (some data)) later ∧ ∀ e ∈ tr, ¬ Fails e.event := by
  unfold receiveArgs
  by_cases hpos : 0 < data.length
  · have hread : Exec (· = ·) Delivers (xrecvmsg data.length) (data ++ later)
        [⟨data ++ later, ⟨.recvmsg data.length 0 true, some ⟨data, []⟩⟩, later⟩]
        (.returned (some data)) later := by
      refine .call rfl ⟨le_rfl, rfl⟩ ?_
      show Exec _ _ (.ret (ite (data.length = data.length) _ _)) _ _ _ _
      rw [if_pos rfl]
      exact .ret _ _
    rw [if_pos hpos]
    refine ⟨_, hread, ?_⟩
    intro e he hfails
    obtain rfl := List.mem_singleton.mp he
    exact hfails _ rfl rfl
  · rw [if_neg hpos]
    obtain rfl := List.eq_nil_of_length_eq_zero (Nat.eq_zero_of_not_pos hpos)
    exact ⟨[], .ret _ _, fun e he => (List.not_mem_nil he).elim⟩

/-- When no call fails, the strings are returned. -/
theorem recvStrings_succeeds {data : Bytes} {len : UInt32} (later : Bytes)
    (hmax : data.length ≤ maxArgsSize) (hlen : len.toNat = data.length) :
    ∃ tr, Exec (· = ·) Delivers (recvStringsFromClient len) (data ++ later) tr
        (.returned (some (stringsOf data))) later ∧ ∀ e ∈ tr, ¬ Fails e.event := by
  obtain ⟨tr, hargs, hok⟩ := receiveArgs_succeeds data later
  unfold recvStringsFromClient
  rw [hlen, if_neg (by omega)]
  have hlast : Exec (· = ·) Delivers
      ((calloc ((stringsOf data).length + 1) 8).bind fun found =>
        if found = true then .ret (some (stringsOf data)) else .ret none) later
      [⟨later, ⟨.calloc ((stringsOf data).length + 1) 8, true⟩, later⟩]
      (.returned (some (stringsOf data))) later := .call rfl rfl (.ret _ _)
  refine ⟨⟨data ++ later, ⟨.malloc (data.length + 1), true⟩, data ++ later⟩ :: (tr ++ _),
    .call rfl rfl (hargs.bind hlast), ?_⟩
  intro e he
  rcases List.mem_cons.mp he with rfl | he
  · exact Bool.noConfusion
  · rcases List.mem_append.mp he with he | he
    · exact hok e he
    · obtain rfl := List.mem_singleton.mp he
      exact Bool.noConfusion

/-- What the server makes of `data` on the stream: it always comes to a return, which is the list
where no call fails, and the bytes behind the data stay in flight. -/
structure Recovers (len : UInt32) (data : Bytes) (strings : List CString) : Prop where
  returning : Returning (recvStringsFromClient len)
  succeeds : ∀ later, ∃ tr, Exec (· = ·) Delivers (recvStringsFromClient len) (data ++ later) tr
    (.returned (some strings)) later ∧ ∀ e ∈ tr, ¬ Fails e.event
  outcome : ∀ later tr out s',
    Exec (· = ·) Delivers (recvStringsFromClient len) (data ++ later) tr out s' →
    out = .running ∨ (out = .returned (some strings) ∧ s' = later) ∨
      (out = .returned none ∧ ∃ e ∈ tr, Fails e.event)

theorem recvStrings_recovers {data : Bytes} {len : UInt32} (hmax : data.length ≤ maxArgsSize)
    (hlen : len.toNat = data.length) : Recovers len data (stringsOf data) where
  returning := (recvStrings_lives len).returning
  succeeds later := recvStrings_succeeds later hmax hlen
  outcome := by
    intro later tr out s' hrun
    rcases (recvStrings_lives len).returning.outcome hrun.runs with rfl | ⟨r, rfl⟩
    · exact Or.inl rfl
    · rcases recvStrings_delivers hmax hlen hrun with ⟨rfl, hs⟩ | ⟨rfl, hfails⟩
      · exact Or.inr (Or.inl ⟨rfl, hs⟩)
      · exact Or.inr (Or.inr ⟨rfl, hfails⟩)

/-! The client. -/

theorem sent_append (t₁ t₂ : List (Event SockRes)) : sent (t₁ ++ t₂) = sent t₁ ++ sent t₂ :=
  List.flatMap_append

private theorem sent_xsendmsg {data : Bytes} {ok : Bool} {tr : List (Event SockRes)}
    (h : Runs (xsendmsg data) tr (.returned ok)) : sent tr = data := by
  obtain ⟨r, rest, rfl, hr⟩ := returns_op_bind.mp h
  have hrest : rest = [] := by
    cases r with
    | error e => exact (returns_ret.mp hr).1
    | ok n => exact (returns_ret.mp hr).1
  rw [hrest]
  exact List.append_nil data

private theorem sent_orDie {data : Bytes} {why : String} {tr : List (Event SockRes)}
    (h : Runs ((xsendmsg data).bind fun ok => if ok = true then .ret () else .die why) tr
      (.returned ())) : sent tr = data := by
  obtain ⟨ok, t₁, t₂, rfl, h₁, h₂⟩ := returns_bind.mp h
  have hrest : t₂ = [] := by
    cases ok with
    | false => cases h₂
    | true => exact (returns_ret.mp h₂).1
  rw [hrest, List.append_nil]
  exact sent_xsendmsg h₁

private theorem sent_sendEach {name : String} {argv : List CString} {tr : List (Event SockRes)}
    (h : Runs (sendEach name argv) tr (.returned ())) : sent tr = encodeStrings argv := by
  induction argv generalizing tr with
  | nil =>
      obtain ⟨rfl, -⟩ := returns_ret.mp h
      rfl
  | cons arg argv ih =>
      obtain ⟨_, t₁, t₂, rfl, h₁, h₂⟩ := returns_bind.mp h
      rw [sent_append, sent_orDie h₁, ih h₂]
      rfl

/-- The call sends nothing. -/
private def Listens : SockOp → Prop
  | .sendmsg _ _ => False
  | .recvmsg _ _ _ | .malloc _ | .calloc _ _ => True

private theorem sent_of_listens {α : Type} {p : SockProg α} {tr : List (Event SockRes)}
    {out : Outcome α} (h : Runs p tr out) (hp : p.Uses Listens) : sent tr = [] := by
  apply List.flatMap_eq_nil_iff.mpr
  rintro ⟨o, r⟩ he
  have hlistens : Listens o := h.uses hp _ he
  cases o with
  | sendmsg data cmsgs => exact hlistens.elim
  | recvmsg size control waitall => rfl
  | malloc size => rfl
  | calloc nmemb size => rfl

private theorem xrecvmsg_listens (n : ℕ) : (xrecvmsg n).Uses Listens := by
  refine ⟨trivial, fun r => ?_⟩
  cases r <;> trivial

private theorem recvData_listens (name : String) (len : UInt32) :
    (recvData name len).Uses Listens := by
  refine Prog.Uses.bind ⟨trivial, fun _ => trivial⟩ fun found => ?_
  cases found with
  | false => trivial
  | true =>
      refine (xrecvmsg_listens _).bind fun text => ?_
      cases text <;> trivial

private theorem recvResponse_listens (name : String) : (recvResponse name).Uses Listens := by
  have hlast : ∀ rc : Int32, Prog.Uses Listens
      (if rc = cmdStatusFailed then .die "failed" else .ret rc : SockProg Int32) := by
    intro rc
    split_ifs
    · trivial
    · trivial
  refine (xrecvmsg_listens 8).bind fun data => ?_
  cases data with
  | none => trivial
  | some data =>
      change Prog.Uses _ (ite ((SrvCmdResp.decode data).len ≠ 0) _ _)
      by_cases hlen : (SrvCmdResp.decode data).len ≠ 0
      · rw [if_pos hlen]
        exact (recvData_listens name _).bind fun _ => hlast _
      · rw [if_neg hlen]
        exact hlast _

/-- All that `send_strings` puts on the stream. -/
theorem sent_sendStrings {cmd : JobCommand} {name : String} {argv : List CString}
    {tr : List (Event SockRes)} (hmax : (encodeStrings argv).length ≤ maxArgsSize)
    (h : Runs (sendStrings cmd name argv) tr (.returned ())) :
    sent tr = CmdHeader.encode ⟨cmd.bit, UInt32.ofNat (encodeStrings argv).length⟩ ++
      encodeStrings argv := by
  rw [sendStrings_eq name hmax] at h
  obtain ⟨_, t₁, t₂, rfl, hsends, hresponse⟩ := returns_bind.mp h
  obtain ⟨_, t₃, t₄, rfl, hheader, heach⟩ := returns_bind.mp hsends
  have hquiet : sent t₂ = [] :=
    sent_of_listens hresponse ((recvResponse_listens name).bind fun _ => trivial)
  rw [sent_append, hquiet, List.append_nil, sent_append, sent_orDie hheader, sent_sendEach heach]

private theorem orDie_returns (data : Bytes) (why : String) :
    Runs ((xsendmsg data).bind fun ok => if ok = true then .ret () else .die why)
      [⟨.sendmsg data [], .ok data.length⟩] (.returned ()) := by
  refine .call ?_
  show Runs (ite (decide (data.length = data.length) = true) _ _) _ _
  rw [if_pos (decide_eq_true rfl)]
  exact .ret ()

private theorem sendEach_returns (name : String) (argv : List CString) :
    ∃ tr, Runs (sendEach name argv) tr (.returned ()) := by
  induction argv with
  | nil => exact ⟨[], .ret ()⟩
  | cons arg argv ih =>
      obtain ⟨tr, htr⟩ := ih
      exact ⟨_, (orDie_returns _ _).bind htr⟩

/-- The client gets through when its calls succeed and the server has taken the command. -/
theorem sendStrings_returns (cmd : JobCommand) (name : String) {argv : List CString}
    (hmax : (encodeStrings argv).length ≤ maxArgsSize) :
    ∃ tr, Runs (sendStrings cmd name argv) tr (.returned ()) := by
  obtain ⟨tr, htr⟩ := sendEach_returns name argv
  have hresponse : Runs ((recvResponse name).bind fun _ => .ret ())
      [⟨.recvmsg 8 0 true, some ⟨SrvCmdResp.encode ⟨cmdStatusDone, 0⟩, []⟩⟩] (.returned ()) :=
    .call (.ret ())
  rw [sendStrings_eq name hmax]
  exact ⟨_, ((orDie_returns _ _).bind htr).bind hresponse⟩

/-- What the client sends is received as it was sent; and for any data, both loops stay inside the
allocation, agree on the number of strings, and lose nothing of the data. -/
theorem string_codec :
    (∀ (cmd : JobCommand) (name : String) (argv : List CString),
      (encodeStrings argv).length ≤ maxArgsSize →
      (∃ tr, Runs (sendStrings cmd name argv) tr (.returned ())) ∧
      ∀ tr, Runs (sendStrings cmd name argv) tr (.returned ()) →
        ∃ len, sent tr = CmdHeader.encode ⟨cmd.bit, len⟩ ++ encodeStrings argv ∧
          Recovers len (encodeStrings argv) argv) ∧
    (∀ data allocated : Bytes, data.length ≤ maxArgsSize → allocated.length = data.length + 1 →
      ∃ (v : Argv) (starts : List ℕ),
        (∀ fuel, data.length < fuel → parseArgs fuel allocated data = some v) ∧
        v.stored = v.counted ∧ v.counted = starts.length ∧
        v.args = data ++ [0] ∧ v.av = starts.map some ++ [none] ∧
        (∀ p ∈ starts, p < data.length) ∧
        encodeStrings v.strings = closed data ∧
        ∀ len : UInt32, len.toNat = data.length → Recovers len data v.strings) := by
  constructor
  · intro cmd name argv hmax
    refine ⟨sendStrings_returns cmd name hmax, ?_⟩
    intro tr h
    have hsize : (UInt32.ofNat (encodeStrings argv).length).toNat =
        (encodeStrings argv).length := by
      apply UInt32.toNat_ofNat_of_lt'
      unfold maxArgsSize at hmax
      show _ < 2 ^ 32
      omega
    have hrecovers := recvStrings_recovers hmax hsize
    rw [stringsOf_encodeStrings] at hrecovers
    exact ⟨_, sent_sendStrings hmax h, hrecovers⟩
  · intro data allocated hmax hlen
    have hstrings : Argv.strings ⟨data ++ [0],
        (scan (data ++ [0]) data.length data.length 0).length,
        (scan (data ++ [0]) data.length data.length 0).length,
        (scan (data ++ [0]) data.length data.length 0).map some ++ [none]⟩ = stringsOf data :=
      strings_of_pointers
    refine ⟨_, scan (data ++ [0]) data.length data.length 0,
      fun fuel hfuel => parseArgs_eq hlen hfuel, rfl, rfl, rfl, rfl, fun p hp => lt_of_mem_scan hp,
      ?_, ?_⟩
    · rw [hstrings]
      exact encodeStrings_stringsOf data
    · intro len hsize
      rw [hstrings]
      exact recvStrings_recovers hmax hsize

/-! The list of `a` and the empty string, sent and received, and three bytes without a last
terminator. -/

private def sampleStrings : List CString := [⟨[97], by decide⟩, ⟨[], by decide⟩]

private def sampleSending : List (Event SockRes) :=
  [⟨.sendmsg (CmdHeader.encode ⟨JobCommand.arguments.bit, 3⟩) [], .ok 8⟩,
    ⟨.sendmsg [97, 0] [], .ok 2⟩, ⟨.sendmsg [0] [], .ok 1⟩,
    ⟨.recvmsg 8 0 true, some ⟨SrvCmdResp.encode ⟨cmdStatusDone, 0⟩, []⟩⟩]

/-- The list is received in front of a byte of the next command. -/
private def sampleReceiving : List (Step Bytes SockRes) :=
  [⟨[97, 0, 0, 16], ⟨.malloc 4, true⟩, [97, 0, 0, 16]⟩,
    ⟨[97, 0, 0, 16], ⟨.recvmsg 3 0 true, some ⟨[97, 0, 0], []⟩⟩, [16]⟩,
    ⟨[16], ⟨.calloc 3 8, true⟩, [16]⟩]

/-- The client leaves after two of the three bytes. -/
private def sampleShort : List (Step Bytes SockRes) :=
  [⟨[97, 0, 0, 16], ⟨.malloc 4, true⟩, [97, 0, 0, 16]⟩,
    ⟨[97, 0, 0, 16], ⟨.recvmsg 3 0 true, some ⟨[97, 0], []⟩⟩, [0, 16]⟩]

private theorem sampleReceiving_exec :
    Exec (· = ·) Delivers (recvStringsFromClient 3) [97, 0, 0, 16] sampleReceiving
      (.returned (some sampleStrings)) [16] := by
  refine Runs.exec (Prog.runs_of_replay rfl) ?_
  exact ⟨rfl, rfl, rfl, ⟨by decide, rfl⟩, rfl, rfl, rfl⟩

private theorem sampleShort_exec :
    Exec (· = ·) Delivers (recvStringsFromClient 3) [97, 0, 0, 16] sampleShort (.returned none)
      [0, 16] := by
  refine Runs.exec (Prog.runs_of_replay rfl) ?_
  exact ⟨rfl, rfl, rfl, ⟨by decide, rfl⟩, rfl⟩

theorem string_codec_sample :
    (∃ len, sent sampleSending = CmdHeader.encode ⟨JobCommand.arguments.bit, len⟩ ++ [97, 0, 0]) ∧
    (Exec (· = ·) Delivers (recvStringsFromClient 3) [97, 0, 0, 16] sampleReceiving
      (.returned (some sampleStrings)) [16]) ∧
    (∃ e ∈ sampleShort, Fails e.event) ∧
    (∃ (v : Argv) (starts : List ℕ), parseArgs 4 [7, 7, 7, 7] [97, 0, 98] = some v ∧
      v.stored = v.counted ∧ v.av = starts.map some ++ [none] ∧
      encodeStrings v.strings = [97, 0, 98, 0]) := by
  obtain ⟨len, hsent, hrecovers⟩ := (string_codec.1 .arguments "arguments" sampleStrings
    (by decide)).2 sampleSending (Prog.runs_of_replay rfl)
  refine ⟨⟨len, hsent⟩, sampleReceiving_exec, ?_, ?_⟩
  · have hlen : len = 3 := by
      have hheader : CmdHeader.encode ⟨JobCommand.arguments.bit, 3⟩ =
          CmdHeader.encode ⟨JobCommand.arguments.bit, len⟩ :=
        List.append_cancel_right hsent
      have hwords := congrArg CmdHeader.decode hheader
      rw [CmdHeader.decode_encode, CmdHeader.decode_encode] at hwords
      exact (congrArg CmdHeader.len hwords).symm
    subst hlen
    rcases hrecovers.outcome [16] _ _ _ sampleShort_exec with h | ⟨h, -⟩ | ⟨-, h⟩
    · cases h
    · cases h
    · exact h
  · obtain ⟨v, starts, hparse, hstored, -, -, hav, -, hencode, -⟩ :=
      string_codec.2 [97, 0, 98] [7, 7, 7, 7] (by decide) rfl
    exact ⟨v, starts, hparse 4 (by decide), hstored, hav, hencode⟩

end HasherPriv.JobService.StringCodec
