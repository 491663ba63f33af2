/- GID: HasherPriv/IoLoop/AuthData
   layer: input and output loop
   source: io_x11.c
   digest: The check of the first X11 packet stays inside what was read and replaces exactly the fake cookie. -/

import HasherPriv.Foundations.Memory
import HasherPriv.IoLoop.Relay

set_option autoImplicit false
set_option relaxedAutoImplicit false

namespace HasherPriv.IoLoop.AuthData

open Foundations.ByteString (Bytes)
open Foundations.Memory
open Foundations.Program
open Calls
open X11

/-! The function on the bytes that it may touch, with the arithmetic of `unsigned`. -/

/-- `(unsigned) (lo | (hi << 8))`. -/
def word16 (lo hi : UInt8) : UInt32 := lo.toUInt32 ||| hi.toUInt32 <<< 8

/-- `(n + 3) & (unsigned) ~3`. -/
def padded (n : UInt32) : UInt32 := (n + 3) &&& ~~~3

/-- The announced lengths; the outer option is for the accesses. -/
def announced (p : Bytes) : Option (Option (UInt32 × UInt32)) := do
  let order ← p[0]?
  if order = 0x42 then
    let protoLen := word16 (← p[7]?) (← p[6]?)
    let dataLen := word16 (← p[9]?) (← p[8]?)
    return some (protoLen, dataLen)
  else if order = 0x6c then
    let protoLen := word16 (← p[6]?) (← p[7]?)
    let dataLen := word16 (← p[8]?) (← p[9]?)
    return some (protoLen, dataLen)
  else return none

/-- `io_check_auth_data` on the first `slave_avail` bytes of the buffer, every access checked
against them. -/
def checkedAuthData (auth : Auth) (p : Bytes) : Option Bytes := do
  if p.length < 12 then return p
  else
    match ← announced p with
    | none => return p
    | some (protoLen, dataLen) =>
        let expected := 12 + padded protoLen + padded dataLen
        if p.length < expected.toNat then return p
        else if protoLen = 0 ∧ dataLen = 0 then return p
        else if dataLen.toNat ≠ auth.fake.length then return p
        else
          let cookie := (12 + padded protoLen).toNat
          if (← slice p cookie auth.fake.length) ≠ auth.fake then return p
          else store p cookie auth.saved

/-! The arithmetic. -/

theorem word16_toNat (lo hi : UInt8) : (word16 lo hi).toNat = lo.toNat + 256 * hi.toNat := by
  have hlo : lo.toNat < 2 ^ 8 := lo.toNat_lt
  have hhi : hi.toNat < 2 ^ 8 := hi.toNat_lt
  have hfits : hi.toNat <<< 8 < 2 ^ 32 := by
    rw [Nat.shiftLeft_eq]
    omega
  have hshift : (hi.toUInt32 <<< 8).toNat = hi.toNat <<< 8 := by
    rw [UInt32.toNat_shiftLeft]
    exact Nat.mod_eq_of_lt hfits
  rw [word16, UInt32.toNat_or, hshift, Nat.or_comm, UInt8.toNat_toUInt32,
    ← Nat.shiftLeft_add_eq_or_of_lt hlo, Nat.shiftLeft_eq]
  omega

/-- Clearing the two low bits rounds down to a multiple of four. -/
private theorem and_not_three {n : ℕ} (h : n < 2 ^ 32) : n &&& (2 ^ 32 - 4) = n / 4 * 4 := by
  have hmask : 2 ^ 32 - 4 = (2 ^ 30 - 1) <<< 2 := by decide
  have hquot : n / 4 < 2 ^ 30 := by omega
  have hsplit : n = (n / 4) <<< 2 ||| n % 4 := by
    rw [← Nat.shiftLeft_add_eq_or_of_lt (Nat.mod_lt n (by decide)), Nat.shiftLeft_eq]
    omega
  have hlow : (n % 4) &&& (2 ^ 30 - 1) <<< 2 = 0 := by
    have hmod : n % 4 < 4 := Nat.mod_lt n (by decide)
    interval_cases n % 4 <;> decide
  calc n &&& (2 ^ 32 - 4) = ((n / 4) <<< 2 ||| n % 4) &&& (2 ^ 30 - 1) <<< 2 := by
        rw [hmask, ← hsplit]
    _ = (n / 4 &&& (2 ^ 30 - 1)) <<< 2 := by
        rw [Nat.and_or_distrib_right, hlow, Nat.or_zero, ← Nat.shiftLeft_and_distrib]
    _ = n / 4 * 4 := by
        rw [Nat.and_two_pow_sub_one_eq_mod, Nat.mod_eq_of_lt hquot, Nat.shiftLeft_eq]

theorem padded_toNat {n : UInt32} (h : n.toNat < 2 ^ 16) : (padded n).toNat = pad4 n.toNat := by
  have hsum : (n + 3).toNat = n.toNat + 3 := by
    rw [UInt32.toNat_add]
    exact Nat.mod_eq_of_lt (by change n.toNat + 3 < 2 ^ 32; omega)
  have hmask : (~~~3 : UInt32).toNat = 2 ^ 32 - 4 := by decide
  rw [padded, UInt32.toNat_and, hsum, hmask, and_not_three (by omega), pad4]

/-! The accesses. -/

private theorem getElem?_eq_getD {p : Bytes} {i : ℕ} (h : i < p.length) :
    p[i]? = some (p.getD i 0) := by
  rw [List.getD_eq_getElem?_getD, List.getElem?_eq_getElem h]
  rfl

/-- The header is read inside the first twelve bytes. -/
theorem announced_eq {p : Bytes} (h : 12 ≤ p.length) :
    ∃ r, announced p = some r ∧ setupLengths p = r.map (fun l => (l.1.toNat, l.2.toNat)) ∧
      ∀ l, r = some l → l.1.toNat < 2 ^ 16 ∧ l.2.toNat < 2 ^ 16 := by
  have hget : ∀ i < 12, p[i]? = some (p.getD i 0) := fun i hi => getElem?_eq_getD (by omega)
  have hword : ∀ lo hi : UInt8, (word16 lo hi).toNat < 2 ^ 16 := by
    intro lo hi
    have hlo := lo.toNat_lt
    have hhi := hi.toNat_lt
    rw [word16_toNat]
    omega
  have hbyte : ∀ c d : UInt8, c.toNat = d.toNat ↔ c = d := fun c d => UInt8.toNat_inj
  unfold announced setupLengths
  simp only [hget 0 (by decide), hget 6 (by decide), hget 7 (by decide), hget 8 (by decide),
    hget 9 (by decide), Option.bind_eq_bind, Option.bind_some, ← word16_toNat]
  by_cases hmsb : p.getD 0 0 = 0x42
  · have hnum : (p.getD 0 0).toNat = 0x42 := (hbyte _ 0x42).mpr hmsb
    rw [if_pos hmsb, if_pos hnum]
    refine ⟨_, rfl, rfl, ?_⟩
    rintro l ⟨rfl⟩
    exact ⟨hword _ _, hword _ _⟩
  · have hnum : ¬ (p.getD 0 0).toNat = 0x42 := mt (hbyte _ 0x42).mp hmsb
    rw [if_neg hmsb, if_neg hnum]
    by_cases hlsb : p.getD 0 0 = 0x6c
    · have hnum' : (p.getD 0 0).toNat = 0x6c := (hbyte _ 0x6c).mpr hlsb
      rw [if_pos hlsb, if_pos hnum']
      refine ⟨_, rfl, rfl, ?_⟩
      rintro l ⟨rfl⟩
      exact ⟨hword _ _, hword _ _⟩
    · have hnum' : ¬ (p.getD 0 0).toNat = 0x6c := mt (hbyte _ 0x6c).mp hlsb
      rw [if_neg hlsb, if_neg hnum']
      exact ⟨none, rfl, rfl, fun l hl => by cases hl⟩

theorem cookie_toNat {protoLen : UInt32} (h : protoLen.toNat < 2 ^ 16) :
    (12 + padded protoLen).toNat = 12 + pad4 protoLen.toNat := by
  rw [UInt32.toNat_add, padded_toNat h]
  apply Nat.mod_eq_of_lt
  show 12 + (protoLen.toNat + 3) / 4 * 4 < 2 ^ 32
  omega

theorem expected_toNat {protoLen dataLen : UInt32} (hproto : protoLen.toNat < 2 ^ 16)
    (hdata : dataLen.toNat < 2 ^ 16) :
    (12 + padded protoLen + padded dataLen).toNat =
      12 + pad4 protoLen.toNat + pad4 dataLen.toNat := by
  rw [UInt32.toNat_add, cookie_toNat hproto, padded_toNat hdata]
  apply Nat.mod_eq_of_lt
  show 12 + (protoLen.toNat + 3) / 4 * 4 + (dataLen.toNat + 3) / 4 * 4 < 2 ^ 32
  omega

/-- The field is compared and replaced where it lies inside what was read. -/
theorem replaceField_eq (auth : Auth) {p : Bytes} {cookie : ℕ}
    (h : cookie + auth.fake.length ≤ p.length) :
    ((slice p cookie auth.fake.length).bind fun field =>
        if field ≠ auth.fake then some p else store p cookie auth.saved) =
      some (if (p.drop cookie).take auth.fake.length ≠ auth.fake then p
        else p.take cookie ++ auth.saved ++ p.drop (cookie + auth.fake.length)) := by
  have hsaved : cookie + auth.saved.length ≤ p.length := by
    rw [auth.same]
    exact h
  rw [slice_eq h, Option.bind_some, store_eq hsaved, auth.same]
  split_ifs
  · rfl
  · rfl

/-- No access is outside the bytes that were read, and the result is that of the pure function. -/
theorem checkedAuthData_eq (auth : Auth) (p : Bytes) :
    checkedAuthData auth p = some (ioCheckAuthData (some auth) p) := by
  by_cases hshort : p.length < 12
  · unfold checkedAuthData ioCheckAuthData
    simp only [if_pos hshort]
    rfl
  · obtain ⟨r, hr, hlengths, hbounds⟩ := announced_eq (Nat.le_of_not_lt hshort)
    unfold checkedAuthData ioCheckAuthData
    simp only [if_neg hshort, hr, hlengths, Option.bind_eq_bind, Option.bind_some]
    cases r with
    | none => rfl
    | some l =>
        obtain ⟨protoLen, dataLen⟩ := l
        have hproto : protoLen.toNat < 2 ^ 16 := (hbounds _ rfl).1
        have hdata : dataLen.toNat < 2 ^ 16 := (hbounds _ rfl).2
        have hempty : (protoLen = 0 ∧ dataLen = 0) ↔ (protoLen.toNat = 0 ∧ dataLen.toNat = 0) :=
          and_congr UInt32.toNat_inj.symm UInt32.toNat_inj.symm
        simp only [Option.map_some, cookie_toNat hproto, expected_toNat hproto hdata, hempty]
        by_cases hlong : p.length < 12 + pad4 protoLen.toNat + pad4 dataLen.toNat
        · rw [if_pos hlong, if_pos hlong]
          rfl
        · rw [if_neg hlong, if_neg hlong]
          by_cases hnone : protoLen.toNat = 0 ∧ dataLen.toNat = 0
          · rw [if_pos hnone, if_pos hnone]
            rfl
          · rw [if_neg hnone, if_neg hnone]
            by_cases hlen : dataLen.toNat = auth.fake.length
            · have hpad : dataLen.toNat ≤ pad4 dataLen.toNat := by
                simp only [pad4]
                omega
              have hroom : 12 + pad4 protoLen.toNat + auth.fake.length ≤ p.length := by omega
              rw [if_neg (not_not.mpr hlen)]
              refine (replaceField_eq auth hroom).trans (congrArg some ?_)
              simp only [hlen, ne_eq, not_true_eq_false, false_or]
            · rw [if_pos hlen, if_pos (Or.inl hlen)]
              rfl

/-! What is replaced. -/

/-- The 16 bit number at `i`, in the byte order that the first byte names. -/
def number (p : Bytes) (i : ℕ) : ℕ :=
  if p.head? = some 0x42 then 256 * (p.getD i 0).toNat + (p.getD (i + 1) 0).toNat
  else (p.getD i 0).toNat + 256 * (p.getD (i + 1) 0).toNat

def cookieAt (p : Bytes) : ℕ := 12 + pad4 (number p 6)

/-- What was read starts with a setup packet that carries the fake cookie. -/
structure Carries (fake p : Bytes) : Prop where
  header : 12 ≤ p.length
  order : p.head? = some 0x42 ∨ p.head? = some 0x6c
  room : 12 + pad4 (number p 6) + pad4 (number p 8) ≤ p.length
  size : number p 8 = fake.length
  field : (p.drop (cookieAt p)).take (number p 8) = fake

theorem setupLengths_eq (p : Bytes) :
    setupLengths p =
      if p.head? = some 0x42 ∨ p.head? = some 0x6c then some (number p 6, number p 8) else none := by
  have hbyte : ∀ c d : UInt8, c.toNat = d.toNat ↔ c = d := fun c d => UInt8.toNat_inj
  cases p with
  | nil => rfl
  | cons c p =>
      unfold setupLengths number
      simp only [List.head?_cons, Option.some.injEq, List.getD_cons_zero]
      by_cases hmsb : c = 0x42
      · have hnum : c.toNat = 0x42 := (hbyte c 0x42).mpr hmsb
        rw [if_pos hnum, if_pos (Or.inl hmsb), if_pos hmsb, if_pos hmsb]
        simp only [Nat.add_comm]
      · have hnum : ¬ c.toNat = 0x42 := mt (hbyte c 0x42).mp hmsb
        rw [if_neg hnum, if_neg hmsb, if_neg hmsb]
        by_cases hlsb : c = 0x6c
        · have hnum' : c.toNat = 0x6c := (hbyte c 0x6c).mpr hlsb
          rw [if_pos hnum', if_pos (Or.inr hlsb)]
        · have hnum' : ¬ c.toNat = 0x6c := mt (hbyte c 0x6c).mp hlsb
          rw [if_neg hnum', if_neg (not_or.mpr ⟨hmsb, hlsb⟩)]

/-- The bytes with the field replaced. -/
def replaced (auth : Auth) (p : Bytes) : Bytes :=
  p.take (cookieAt p) ++ auth.saved ++ p.drop (cookieAt p + auth.fake.length)

theorem ioCheckAuthData_of_carries {auth : Auth} {p : Bytes} (h : Carries auth.fake p) :
    ioCheckAuthData (some auth) p = replaced auth p := by
  have hheader := h.header
  have hroom := h.room
  have hlengths : setupLengths p = some (number p 6, number p 8) := by
    rw [setupLengths_eq, if_pos h.order]
  have hfield := h.field
  rw [h.size] at hfield
  unfold ioCheckAuthData
  simp only [hlengths]
  rw [if_neg (by omega), if_neg (by omega)]
  by_cases hnone : number p 6 = 0 ∧ number p 8 = 0
  · -- an empty cookie in place of an empty cookie
    have hempty : auth.fake.length = 0 := by
      rw [← h.size]
      exact hnone.2
    have hsaved : auth.saved = [] := List.eq_nil_of_length_eq_zero (auth.same.trans hempty)
    rw [if_pos hnone, replaced, hsaved, hempty, List.append_nil, Nat.add_zero,
      List.take_append_drop]
  · have hsame : ¬ (number p 8 ≠ auth.fake.length ∨
        (p.drop (12 + pad4 (number p 6))).take auth.fake.length ≠ auth.fake) :=
      not_or.mpr ⟨not_not.mpr h.size, not_not.mpr hfield⟩
    rw [if_neg hnone, if_neg hsame]
    rfl

theorem ioCheckAuthData_of_not_carries {auth : Auth} {p : Bytes} (h : ¬ Carries auth.fake p) :
    ioCheckAuthData (some auth) p = p := by
  unfold ioCheckAuthData
  dsimp only
  split_ifs with hshort
  · rfl
  · rw [setupLengths_eq]
    by_cases horder : p.head? = some 0x42 ∨ p.head? = some 0x6c
    · simp only [if_pos horder]
      split_ifs with hlong hnone hother
      · rfl
      · rfl
      · rfl
      · exfalso
        apply h
        rw [not_or, not_not, not_not] at hother
        obtain ⟨hsize, hfield⟩ := hother
        refine ⟨by omega, horder, by omega, hsize, ?_⟩
        rw [hsize]
        exact hfield
    · simp only [if_neg horder]

/-- Only the field differs. -/
theorem replaced_ne {auth : Auth} {p : Bytes} (h : Carries auth.fake p)
    (hne : auth.saved ≠ auth.fake) : replaced auth p ≠ p := by
  intro heq
  apply hne
  have hfront : (p.take (cookieAt p)).length = cookieAt p := by
    have hroom := h.room
    rw [List.length_take, cookieAt]
    omega
  have hmiddle : (replaced auth p).drop (cookieAt p) =
      auth.saved ++ p.drop (cookieAt p + auth.fake.length) := by
    rw [replaced, List.append_assoc, List.drop_left' hfront]
  calc auth.saved = ((replaced auth p).drop (cookieAt p)).take auth.fake.length := by
        rw [hmiddle, List.take_left' auth.same]
    _ = (p.drop (cookieAt p)).take (number p 8) := by rw [heq, h.size]
    _ = auth.fake := h.field

/-! Later calls. -/

/-- The connection after some rounds of `x11_handle_select`. -/
inductive Relayed (auth : Option Auth) (io : IoX11) : IoX11 → Prop
  | refl : Relayed auth io io
  | round {io' io'' : IoX11} {reads writes : FdSet} {tr : List (Event IoRes)}
      (h : Relayed auth io io') (hrun : Runs (relay auth reads writes io') tr (.returned (some io''))) :
      Relayed auth io io''

private theorem returns_map {q : IoProg (Option Buffer)} {f : Buffer → IoX11} {io : IoX11}
    {tr : List (Event IoRes)}
    (h : Runs (q.bind fun r => .ret (r.map f)) tr (.returned (some io))) : ∃ b, f b = io := by
  obtain ⟨r, t₁, t₂, rfl, -, hret⟩ := returns_bind.mp h
  obtain ⟨-, hr⟩ := returns_ret.mp hret
  obtain ⟨b, -, hb⟩ := Option.map_eq_some_iff.mp hr.symm
  exact ⟨b, hb⟩

private theorem orFree_authenticated {io io' : IoX11} {step : IoProg (Option IoX11)}
    {next : IoX11 → IoProg (Option IoX11)} {tr : List (Event IoRes)}
    (hstep : ∀ {t s}, Runs step t (.returned (some s)) → s.authenticated = true)
    (hnext : ∀ {s t}, s.authenticated = true → Runs (next s) t (.returned (some io')) →
      io'.authenticated = true)
    (h : Runs (orFree io step next) tr (.returned (some io'))) : io'.authenticated = true := by
  obtain ⟨s, t₁, t₂, rfl, h₁, h₂⟩ := returns_bind.mp h
  cases s with
  | none =>
      obtain ⟨_, t₃, t₄, -, -, h₄⟩ := returns_bind.mp h₂
      cases (returns_ret.mp h₄).2
  | some s => exact hnext (hstep h₁) h₂

private theorem halfStep_authenticated {io io' : IoX11} {cond : Prop} [Decidable cond]
    {q : IoProg (Option Buffer)} {f : Buffer → IoX11} {tr : List (Event IoRes)}
    (hio : io.authenticated = true) (hf : ∀ b, (f b).authenticated = true)
    (h : Runs (if cond then q.bind fun r => .ret (r.map f) else .ret (some io)) tr
      (.returned (some io'))) : io'.authenticated = true := by
  split_ifs at h with hcond
  · obtain ⟨b, rfl⟩ := returns_map h
    exact hf b
  · obtain ⟨-, hr⟩ := returns_ret.mp h
    rw [Option.some.inj hr]
    exact hio

/-- No half-step takes the mark back. -/
theorem relay_authenticated {auth : Option Auth} {reads writes : FdSet} {io io' : IoX11}
    {tr : List (Event IoRes)} (hio : io.authenticated = true)
    (h : Runs (relay auth reads writes io) tr (.returned (some io'))) :
    io'.authenticated = true := by
  refine orFree_authenticated ?_ ?_ h
  · intro t io₁ h₁
    refine halfStep_authenticated hio ?_ h₁
    intro b
    exact hio
  intro io₁ t₁ hio₁ h₁
  refine orFree_authenticated ?_ ?_ h₁
  · intro t io₂ h₂
    refine halfStep_authenticated hio₁ ?_ h₂
    intro b
    exact hio₁
  intro io₂ t₂ hio₂ h₂
  refine orFree_authenticated ?_ ?_ h₂
  · intro t io₃ h₃
    refine halfStep_authenticated hio₂ ?_ h₃
    intro b
    exact hio₂
  intro io₃ t₃ hio₃ h₃
  refine orFree_authenticated ?_ ?_ h₃
  · intro t io₄ h₄
    refine halfStep_authenticated hio₃ ?_ h₄
    intro b
    exact IoX11.checkAuthData_authenticated auth _
  intro io₄ t₄ hio₄ h₄
  rw [Option.some.inj (returns_ret.mp h₄).2]
  exact hio₄

theorem Relayed.authenticated {auth : Option Auth} {io io' : IoX11} (h : Relayed auth io io')
    (hio : io.authenticated = true) : io'.authenticated = true := by
  induction h with
  | refl => exact hio
  | round h hrun ih => exact relay_authenticated ih hrun

/-- The first call reads and writes inside what was read, and replaces the fake cookie of a setup
packet and nothing else; later calls of the connection change nothing. -/
theorem auth_data_rewritten_exactly (auth : Auth) {io : IoX11} (h : io.authenticated = false) :
    (∃ p, checkedAuthData auth io.slaveBuf.data = some p ∧
      (io.checkAuthData (some auth)).slaveBuf.bytes =
        p ++ io.slaveBuf.bytes.drop io.slaveBuf.avail ∧
      (Carries auth.fake io.slaveBuf.data → p = replaced auth io.slaveBuf.data) ∧
      (¬ Carries auth.fake io.slaveBuf.data → p = io.slaveBuf.data) ∧
      (auth.saved ≠ auth.fake → (p ≠ io.slaveBuf.data ↔ Carries auth.fake io.slaveBuf.data))) ∧
    (io.checkAuthData (some auth)).slaveBuf.avail = io.slaveBuf.avail ∧
    (∀ io', Relayed (some auth) (io.checkAuthData (some auth)) io' → ∀ b,
      { io' with slaveBuf := b }.checkAuthData (some auth) = { io' with slaveBuf := b }) := by
  refine ⟨⟨_, checkedAuthData_eq auth _, ?_, ioCheckAuthData_of_carries,
    ioCheckAuthData_of_not_carries, ?_⟩, IoX11.checkAuthData_avail _ _, ?_⟩
  · rw [IoX11.checkAuthData, if_neg (by simp [h])]
  · intro hne
    constructor
    · intro hchanged
      by_contra hnot
      exact hchanged (ioCheckAuthData_of_not_carries hnot)
    · intro hcarries
      rw [ioCheckAuthData_of_carries hcarries]
      exact replaced_ne hcarries hne
  · intro io' hio' b
    have hmark : io'.authenticated = true :=
      hio'.authenticated (IoX11.checkAuthData_authenticated _ _)
    exact IoX11.checkAuthData_of_authenticated _ _ hmark

/-! A setup packet with the least significant byte first, a protocol name of two bytes and a
cookie of one. -/

private def samplePacket : Bytes :=
  [0x6c, 0, 11, 0, 0, 0, 2, 0, 1, 0, 0, 0, 77, 73, 0, 0, 6, 0, 0, 0]

private theorem sample_lengths : ([5] : Bytes).length = ([6] : Bytes).length := rfl

private def sampleCookies : Auth := { saved := [5], fake := [6], same := sample_lengths }

private def sampleConn : IoX11 :=
  { masterFd := 8, slaveFd := 7, slaveBuf := Buffer.empty.fill ⟨samplePacket, by decide⟩ }

theorem auth_data_rewritten_exactly_sample :
    (∃ p, checkedAuthData sampleCookies samplePacket = some p ∧
      (sampleConn.checkAuthData (some sampleCookies)).slaveBuf.bytes =
        p ++ sampleConn.slaveBuf.bytes.drop 20 ∧
      p = [0x6c, 0, 11, 0, 0, 0, 2, 0, 1, 0, 0, 0, 77, 73, 0, 0, 5, 0, 0, 0]) ∧
    (sampleConn.checkAuthData (some sampleCookies)).slaveBuf.avail = 20 := by
  have hdata : sampleConn.slaveBuf.data = samplePacket := Buffer.fill_data _ _
  have hcarries : Carries sampleCookies.fake samplePacket := by
    constructor <;> decide
  obtain ⟨⟨p, hchecked, hbytes, hsome, -, -⟩, havail, -⟩ :=
    @auth_data_rewritten_exactly sampleCookies sampleConn rfl
  rw [hdata] at hchecked hsome
  refine ⟨⟨p, hchecked, hbytes, ?_⟩, havail⟩
  rw [hsome hcarries]
  decide

end HasherPriv.IoLoop.AuthData
