/- GID: HasherPriv/IoLoop/Cookie
   layer: input and output loop
   source: io_x11.c
   digest: The substitution of the cookie depends on where the first read of the client ends. -/

import HasherPriv.IoLoop.Connections

set_option autoImplicit false
set_option relaxedAutoImplicit false

namespace HasherPriv.IoLoop.Cookie

open Foundations.ByteString (Bytes)
open Foundations.Program
open Foundations.Handles
open Calls
open Connections
open Descriptors (Answers)
open Relay
open X11

/-! Connection setup packets. -/

/-- A well-formed connection setup packet around a cookie of `len` bytes. -/
structure SetupPacket (len : ℕ) where
  header : Bytes
  name : Bytes
  padding : Bytes
  nameLen : ℕ
  header_length : header.length = 12
  lengths : setupLengths header = some (nameLen, len)
  name_length : name.length = pad4 nameLen
  padding_length : len + padding.length = pad4 len
  carries : ¬ (nameLen = 0 ∧ len = 0)

def SetupPacket.bytes {len : ℕ} (pkt : SetupPacket len) (cookie : Bytes) : Bytes :=
  pkt.header ++ pkt.name ++ cookie ++ pkt.padding

def SetupPacket.size {len : ℕ} (pkt : SetupPacket len) : ℕ := 12 + pad4 pkt.nameLen + pad4 len

theorem SetupPacket.bytes_length {len : ℕ} (pkt : SetupPacket len) {cookie : Bytes}
    (h : cookie.length = len) : (pkt.bytes cookie).length = pkt.size := by
  have hpad := pkt.padding_length
  simp only [bytes, size, List.length_append, pkt.header_length, pkt.name_length, h]
  omega

/-- The lengths are in the first ten bytes. -/
theorem setupLengths_append {p : Bytes} (h : 10 ≤ p.length) (rest : Bytes) :
    setupLengths (p ++ rest) = setupLengths p := by
  have hget : ∀ i < 10, (p ++ rest).getD i 0 = p.getD i 0 := by
    intro i hi
    have hlt : i < p.length := by omega
    rw [List.getD_eq_getElem?_getD, List.getD_eq_getElem?_getD, List.getElem?_append_left hlt]
  unfold setupLengths
  simp only [hget 0 (by decide), hget 6 (by decide), hget 7 (by decide), hget 8 (by decide),
    hget 9 (by decide)]

theorem SetupPacket.setupLengths_bytes {len : ℕ} (pkt : SetupPacket len) (cookie rest : Bytes) :
    setupLengths (pkt.bytes cookie ++ rest) = some (pkt.nameLen, len) := by
  have hten : 10 ≤ pkt.header.length := by
    rw [pkt.header_length]
    decide
  simp only [bytes, List.append_assoc]
  rw [setupLengths_append hten, pkt.lengths]

/-- A complete packet with the fake cookie leaves with the real one. -/
theorem ioCheckAuthData_packet (auth : Auth) (pkt : SetupPacket auth.fake.length) (rest : Bytes) :
    ioCheckAuthData (some auth) (pkt.bytes auth.fake ++ rest) = pkt.bytes auth.saved ++ rest := by
  have hlen := pkt.bytes_length (h := rfl)
  have hfront : (pkt.header ++ pkt.name).length = 12 + pad4 pkt.nameLen := by
    rw [List.length_append, pkt.header_length, pkt.name_length]
  have hsplit : pkt.bytes auth.fake ++ rest =
      (pkt.header ++ pkt.name) ++ (auth.fake ++ (pkt.padding ++ rest)) := by
    simp [SetupPacket.bytes]
  have htotal : (pkt.bytes auth.fake ++ rest).length = pkt.size + rest.length := by
    rw [List.length_append, hlen]
  simp only [ioCheckAuthData, pkt.setupLengths_bytes]
  unfold SetupPacket.size at htotal
  rw [if_neg (by omega), if_neg (by omega), if_neg pkt.carries, if_neg, hsplit,
    ← List.drop_drop, ← hfront, List.take_left, List.drop_left, List.drop_left]
  · simp [SetupPacket.bytes]
  · rw [hsplit, ← hfront, List.drop_left, List.take_left]
    simp

/-- What is not left as it is starts with a complete packet with the fake cookie. -/
theorem ioCheckAuthData_eq_or (auth : Auth) (p : Bytes) :
    ioCheckAuthData (some auth) p = p ∨
      ∃ (pkt : SetupPacket auth.fake.length) (rest : Bytes), p = pkt.bytes auth.fake ++ rest := by
  by_cases hshort : p.length < 12
  · exact .inl (by simp only [ioCheckAuthData, if_pos hshort])
  · cases hlengths : setupLengths p with
    | none => exact .inl (by simp only [ioCheckAuthData, if_neg hshort, hlengths])
    | some lengths =>
        obtain ⟨protoLen, dataLen⟩ := lengths
        simp only [ioCheckAuthData, if_neg hshort, hlengths]
        split_ifs with hlong hempty hother
        · exact .inl rfl
        · exact .inl rfl
        · exact .inl rfl
        · right
          rw [not_or, not_not, not_not] at hother
          obtain ⟨rfl, hfake⟩ := hother
          have hpad : auth.fake.length ≤ pad4 auth.fake.length := by
            simp only [pad4]
            omega
          have hheader : setupLengths (p.take 12) = setupLengths p := by
            have hten : 10 ≤ (p.take 12).length := by
              rw [List.length_take]
              omega
            rw [← setupLengths_append hten (p.drop 12), List.take_append_drop]
          let cookie := 12 + pad4 protoLen
          let pkt : SetupPacket auth.fake.length := {
            header := p.take 12
            name := (p.drop 12).take (pad4 protoLen)
            padding := (p.drop (cookie + auth.fake.length)).take
              (pad4 auth.fake.length - auth.fake.length)
            nameLen := protoLen
            header_length := by
              rw [List.length_take]
              omega
            lengths := hheader.trans hlengths
            name_length := by
              rw [List.length_take, List.length_drop]
              omega
            padding_length := by
              rw [List.length_take, List.length_drop]
              omega
            carries := hempty }
          refine ⟨pkt, p.drop (cookie + pad4 auth.fake.length), ?_⟩
          have hend : cookie + pad4 auth.fake.length =
              cookie + auth.fake.length + (pad4 auth.fake.length - auth.fake.length) := by omega
          have hcookie : p.drop cookie = auth.fake ++ p.drop (cookie + auth.fake.length) := by
            conv_lhs => rw [← List.take_append_drop auth.fake.length (p.drop cookie)]
            rw [hfake, List.drop_drop]
          calc p = p.take 12 ++ ((p.drop 12).take (pad4 protoLen) ++ p.drop cookie) := by
                rw [← List.drop_drop, List.take_append_drop, List.take_append_drop]
            _ = pkt.bytes auth.fake ++ p.drop (cookie + pad4 auth.fake.length) := by
                rw [hcookie, hend, ← List.drop_drop]
                simp [SetupPacket.bytes, pkt]

/-! Streams in chunks. -/

/-- The first read brings at least `n` bytes. -/
def FirstReadCovers (n : ℕ) (cs : List Bytes) : Prop := ∃ c ∈ cs.head?, n ≤ c.length

/-- Two packets at the start of one stream have the same size. -/
theorem SetupPacket.size_unique {len : ℕ} {pkt pkt' : SetupPacket len}
    {cookie cookie' rest rest' : Bytes}
    (h : pkt.bytes cookie ++ rest = pkt'.bytes cookie' ++ rest') : pkt.size = pkt'.size := by
  have hlengths := pkt.setupLengths_bytes cookie rest
  rw [h, pkt'.setupLengths_bytes cookie' rest'] at hlengths
  have hname : pkt'.nameLen = pkt.nameLen := congrArg Prod.fst (Option.some.inj hlengths)
  rw [size, size, hname]

/-- The first read has brought the whole packet. -/
theorem substituted_of_covers {auth : Auth} {cs : List Bytes}
    {pkt : SetupPacket auth.fake.length} {rest : Bytes}
    (h : cs.flatten = pkt.bytes auth.fake ++ rest) (hcovers : FirstReadCovers pkt.size cs) :
    substituted (some auth) cs = pkt.bytes auth.saved ++ rest := by
  have hlen := pkt.bytes_length (h := rfl)
  cases cs with
  | nil =>
      obtain ⟨c, hc, -⟩ := hcovers
      cases hc
  | cons c cs =>
      obtain ⟨c', hc, hle⟩ := hcovers
      obtain rfl : c = c' := Option.some.inj hc
      rw [List.flatten_cons] at h
      obtain ⟨front, hfront⟩ : pkt.bytes auth.fake <+: c := by
        refine List.prefix_of_prefix_length_le ⟨rest, h.symm⟩ ⟨cs.flatten, rfl⟩ ?_
        omega
      have hrest : front ++ cs.flatten = rest := by
        rw [← hfront, List.append_assoc] at h
        exact List.append_cancel_left h
      rw [substituted, ← hfront, ioCheckAuthData_packet, List.append_assoc, hrest]

/-- The first read has not brought the whole packet: nothing is replaced. -/
theorem substituted_of_not_covers {auth : Auth} {cs : List Bytes}
    {pkt : SetupPacket auth.fake.length} {rest : Bytes}
    (h : cs.flatten = pkt.bytes auth.fake ++ rest) (hcovers : ¬ FirstReadCovers pkt.size cs) :
    substituted (some auth) cs = cs.flatten := by
  cases cs with
  | nil => rfl
  | cons c cs =>
      obtain hsame | ⟨pkt', rest', hpkt'⟩ := ioCheckAuthData_eq_or auth c
      · rw [substituted, hsame, List.flatten_cons]
      · -- the packet in the first read would be the one at the start of the stream
        exfalso
        apply hcovers
        have hsize : pkt.size = pkt'.size := by
          rw [List.flatten_cons, hpkt', List.append_assoc] at h
          exact (SetupPacket.size_unique h).symm
        refine ⟨c, rfl, ?_⟩
        rw [hsize, hpkt', List.length_append, pkt'.bytes_length (h := rfl)]
        exact Nat.le_add_right _ _

/-- The stream does not start with such a packet. -/
theorem substituted_of_other {auth : Auth} {cs : List Bytes}
    (h : ∀ (pkt : SetupPacket auth.fake.length) (rest : Bytes),
      cs.flatten ≠ pkt.bytes auth.fake ++ rest) :
    substituted (some auth) cs = cs.flatten := by
  cases cs with
  | nil => rfl
  | cons c cs =>
      obtain hsame | ⟨pkt, rest, rfl⟩ := ioCheckAuthData_eq_or auth c
      · rw [substituted, hsame, List.flatten_cons]
      · exact absurd (by simp) (h pkt (rest ++ cs.flatten))

theorem SetupPacket.bytes_inj {len : ℕ} (pkt : SetupPacket len) {cookie cookie' rest : Bytes}
    (hlen : cookie.length = cookie'.length)
    (h : pkt.bytes cookie ++ rest = pkt.bytes cookie' ++ rest) : cookie = cookie' := by
  have hbytes := List.append_cancel_right h
  simp only [bytes, List.append_assoc] at hbytes
  exact (List.append_inj (List.append_cancel_left (List.append_cancel_left hbytes)) hlen).1

/-- The cookie is replaced exactly if the first read has brought the whole packet. -/
theorem substituted_eq_iff {auth : Auth} {cs : List Bytes} {pkt : SetupPacket auth.fake.length}
    {rest : Bytes} (h : cs.flatten = pkt.bytes auth.fake ++ rest) :
    substituted (some auth) cs = pkt.bytes auth.saved ++ rest ↔
      auth.saved = auth.fake ∨ FirstReadCovers pkt.size cs := by
  by_cases hcovers : FirstReadCovers pkt.size cs
  · exact ⟨fun _ => .inr hcovers, fun _ => substituted_of_covers h hcovers⟩
  · rw [substituted_of_not_covers h hcovers, h]
    constructor
    · intro hsame
      exact .inl (pkt.bytes_inj auth.same.symm hsame).symm
    · intro hor
      rw [hor.resolve_right hcovers]

/-- The stream for the X server, the part that is still in the buffer included. -/
def forwarded (io : IoX11) (tr : Events) : Bytes :=
  written io.masterFd (since tr io.masterFd) ++ io.slaveBuf.data

/-- What each read from the client has brought since it is connected. -/
def clientChunks (io : IoX11) (tr : Events) : List Bytes := chunks io.slaveFd (since tr io.slaveFd)

/-- The stream that the client has sent, as far as it has been read. -/
def stream (io : IoX11) (tr : Events) : Bytes := (clientChunks io tr).flatten

theorem forwarded_eq {auth : Option Auth} {l : IoX11List} {t : Table} {tr : Events}
    (h : Reach auth l t tr) {i : ℕ} {io : IoX11} (hio : l[i]? = some (some io)) :
    forwarded io tr = substituted auth (clientChunks io tr) :=
  (h.connected.each i io hio).2.toMaster

/-- Two connections that have read the same stream forward the same, with the cookie replaced,
exactly if each has got the setup packet with its first read. -/
theorem substitution_agrees_iff {auth : Auth} {l l' : IoX11List} {t t' : Table} {tr tr' : Events}
    (h : Reach (some auth) l t tr) (h' : Reach (some auth) l' t' tr') {i j : ℕ} {io io' : IoX11}
    (hio : l[i]? = some (some io)) (hio' : l'[j]? = some (some io'))
    (hstream : stream io tr = stream io' tr') :
    (forwarded io tr = forwarded io' tr' ∧
        ∀ (pkt : SetupPacket auth.fake.length) (rest : Bytes),
          stream io tr = pkt.bytes auth.fake ++ rest →
            forwarded io tr = pkt.bytes auth.saved ++ rest) ↔
      ∀ (pkt : SetupPacket auth.fake.length) (rest : Bytes),
        stream io tr = pkt.bytes auth.fake ++ rest → auth.saved = auth.fake ∨
          (FirstReadCovers pkt.size (clientChunks io tr) ∧
            FirstReadCovers pkt.size (clientChunks io' tr')) := by
  rw [forwarded_eq h hio, forwarded_eq h' hio']
  constructor
  · rintro ⟨hsame, hreplaced⟩ pkt rest hpkt
    have hreal := hreplaced pkt rest hpkt
    have hfirst := (substituted_eq_iff hpkt).mp hreal
    have hsecond := (substituted_eq_iff (hstream.symm.trans hpkt)).mp (hsame.symm.trans hreal)
    tauto
  · intro hcond
    have hreplaced : ∀ (pkt : SetupPacket auth.fake.length) (rest : Bytes),
        stream io tr = pkt.bytes auth.fake ++ rest →
          substituted (some auth) (clientChunks io tr) = pkt.bytes auth.saved ++ rest :=
      fun pkt rest hpkt =>
        (substituted_eq_iff hpkt).mpr ((hcond pkt rest hpkt).imp_right And.left)
    refine ⟨?_, hreplaced⟩
    by_cases hstart : ∃ (pkt : SetupPacket auth.fake.length) (rest : Bytes),
        stream io tr = pkt.bytes auth.fake ++ rest
    · obtain ⟨pkt, rest, hpkt⟩ := hstart
      have hsecond := (substituted_eq_iff (hstream.symm.trans hpkt)).mpr
        ((hcond pkt rest hpkt).imp_right And.right)
      rw [hreplaced pkt rest hpkt, hsecond]
    · have hother : ∀ (pkt : SetupPacket auth.fake.length) (rest : Bytes),
          stream io tr ≠ pkt.bytes auth.fake ++ rest := fun pkt rest hpkt =>
        hstart ⟨pkt, rest, hpkt⟩
      have hother' : ∀ (pkt : SetupPacket auth.fake.length) (rest : Bytes),
          stream io' tr' ≠ pkt.bytes auth.fake ++ rest := by
        rw [← hstream]
        exact hother
      rw [substituted_of_other hother, substituted_of_other hother']
      exact hstream

/-! Every division into reads occurs. -/

private theorem skipped {io : IoX11} {step : IoProg (Option IoX11)}
    (h : step = .ret (some io)) : Runs step [] (.returned (some io)) := h ▸ .ret _

/-- The client's next chunk is read while nothing else is ready. -/
private theorem relay_reads (auth : Option Auth) {io : IoX11} {m s : ℕ}
    (hm : io.masterFd = m) (hs : io.slaveFd = s) (hne : m ≠ s) (hslave : io.slaveBuf.avail = 0)
    (hmaster : io.masterBuf.avail = 0) (c : { d : Bytes // d.length ≤ bufsiz }) (hc : c.val ≠ []) :
    Runs (relay auth [s] [] io) [⟨.read s bufsiz, some c⟩]
      (.returned (some ({ io with slaveBuf := io.slaveBuf.fill c }.checkAuthData auth))) := by
  have hmset : fdsIsset [s] io.masterFd = false := by simp [hm, fdsIsset, hne]
  have hsset : fdsIsset [s] io.slaveFd = true := by simp [hs, fdsIsset]
  have hread : Runs (readSlave auth [s] io) [⟨.read s bufsiz, some c⟩]
      (.returned (some ({ io with slaveBuf := io.slaveBuf.fill c }.checkAuthData auth))) := by
    rw [readSlave, if_pos ⟨hslave, hsset⟩, hs]
    refine returns_bind.mpr ⟨some (io.slaveBuf.fill c), _, [], (List.append_nil _).symm, ?_, ?_⟩
    · refine returns_op_bind.mpr ⟨some c, [], rfl, ?_⟩
      change Runs (ite _ _ _) _ _
      rw [if_neg hc]
      exact .ret _
    · exact .ret _
  refine (skipped (by rw [writeSlave, if_neg (by simp [hmaster])]; rfl)).bind ?_
  refine (skipped (by rw [readMaster, if_neg (by simp [hmset])]; rfl)).bind ?_
  refine (skipped (by rw [writeMaster, if_neg (by simp [hslave])]; rfl)).bind ?_
  exact hread.bind (.ret _)

/-- The chunk is written while nothing else is ready. -/
private theorem relay_writes (auth : Option Auth) {io : IoX11} {m s : ℕ}
    (hm : io.masterFd = m) (hs : io.slaveFd = s) (hne : m ≠ s) (hslave : io.slaveBuf.avail ≠ 0) :
    Runs (relay auth [] [m] io)
      [⟨.write io.masterFd io.slaveBuf.data, some (Fin.last io.slaveBuf.data.length)⟩]
      (.returned (some { io with
        slaveBuf := io.slaveBuf.consume io.slaveBuf.data.length })) := by
  have hmset : fdsIsset [m] io.masterFd = true := by simp [hm, fdsIsset]
  have hsset : fdsIsset [m] io.slaveFd = false := by simp [hs, fdsIsset, hne.symm]
  have hwrite : Runs (writeMaster [m] io)
      [⟨.write io.masterFd io.slaveBuf.data, some (Fin.last io.slaveBuf.data.length)⟩]
      (.returned (some { io with
        slaveBuf := io.slaveBuf.consume io.slaveBuf.data.length })) := by
    rw [writeMaster, if_pos ⟨hslave, hmset⟩]
    refine returns_bind.mpr ⟨some (io.slaveBuf.consume io.slaveBuf.data.length), _, [],
      (List.append_nil _).symm, ?_, ?_⟩
    · refine returns_op_bind.mpr ⟨some (Fin.last _), [], rfl, ?_⟩
      change Runs (ite _ _ _) _ _
      rw [if_neg (by simpa using hslave)]
      exact .ret _
    · exact .ret _
  refine (skipped (by rw [writeSlave, if_neg (by simp [hsset])]; rfl)).bind ?_
  refine (skipped (by rw [readMaster, if_neg (by simp [fdsIsset])]; rfl)).bind ?_
  refine hwrite.bind ((skipped ?_).bind (.ret _))
  rw [readSlave, if_neg (by simp [fdsIsset])]
  rfl

/-- `x11_handle_select` where there is one connection. -/
private theorem select_one {auth : Option Auth} {reads writes : FdSet} {io : IoX11}
    {r : Option IoX11} {t t' : Table} {part : List (Step Table IoRes)}
    (h : Runs (relay auth reads writes io) (part.map Step.event) (.returned r))
    (hc : Chained (· = ·) Answers t part t') :
    Exec (· = ·) Answers (x11HandleSelect auth reads writes [some io]) t part (.returned [r]) t' := by
  refine Runs.exec ?_ hc
  rw [← List.append_nil (part.map Step.event)]
  exact h.bind (.ret [r])

/-- For every sequence of reads there is a connection that gets its client's stream so. -/
theorem every_division_occurs (auth : Option Auth) (cs : List Bytes)
    (hcs : ∀ c ∈ cs, c ≠ [] ∧ c.length ≤ bufsiz) :
    ∃ (io : IoX11) (t : Table) (tr : Events), Reach auth [some io] t tr ∧
      clientChunks io tr = cs ∧ io.slaveBuf.avail = 0 := by
  suffices hstrong : ∃ (io : IoX11) (tr : Events),
      Reach auth [some io] connectedTable tr ∧ clientChunks io tr = cs ∧
        io.slaveBuf.avail = 0 ∧ io.masterBuf.avail = 0 ∧ io.masterFd = (8 : ℕ) ∧
        io.slaveFd = (7 : ℕ) by
    obtain ⟨io, tr, h, hchunks, hempty, -⟩ := hstrong
    exact ⟨io, connectedTable, tr, h, hchunks, hempty⟩
  induction cs using List.reverseRecOn with
  | nil =>
      have h : Reach auth [some newIo] connectedTable ([] ++ sampleNew.map Step.event) :=
        .new (.init sampleTable []) sampleNew_exec
      exact ⟨newIo, _, h, rfl, rfl, rfl, rfl, rfl⟩
  | append_singleton cs c ih =>
      obtain ⟨io, tr, h, hchunks, hslave, hmaster, hm, hs⟩ :=
        ih fun c' hc' => hcs c' (List.mem_append_left _ hc')
      obtain ⟨hne, hle⟩ := hcs c (by simp)
      let d : { d : Bytes // d.length ≤ bufsiz } := ⟨c, hle⟩
      let io₁ := { io with slaveBuf := io.slaveBuf.fill d }.checkAuthData auth
      have hm₁ : io₁.masterFd = (8 : ℕ) := by simpa [io₁] using hm
      have hs₁ : io₁.slaveFd = (7 : ℕ) := by simpa [io₁] using hs
      have havail : io₁.slaveBuf.avail = c.length := by simp [io₁, d, Buffer.fill]
      have hread : Exec (· = ·) Answers (x11HandleSelect auth [7] [] [some io]) connectedTable
          [⟨connectedTable, ⟨.read (7 : ℕ) bufsiz, some d⟩, connectedTable⟩]
          (.returned [some io₁]) connectedTable :=
        select_one (relay_reads auth hm hs (by decide) hslave hmaster d hne) ⟨rfl, rfl, rfl⟩
      have hsome : io₁.slaveBuf.avail ≠ 0 := by
        rw [havail]
        exact List.length_eq_zero_iff.not.mpr hne
      have hwrite : Exec (· = ·) Answers (x11HandleSelect auth [] [8] [some io₁]) connectedTable
          [⟨connectedTable, ⟨.write io₁.masterFd io₁.slaveBuf.data,
            some (Fin.last io₁.slaveBuf.data.length)⟩, connectedTable⟩] _ connectedTable :=
        select_one (relay_writes auth hm₁ hs₁ (by decide) hsome) ⟨rfl, rfl, rfl⟩
      refine ⟨_, _, (h.select hread).select hwrite, ?_, ?_, ?_, hm₁, hs₁⟩
      · have hsecond := x11HandleSelect_opens hwrite.runs (7 : ℕ)
        have hfirst := x11HandleSelect_opens hread.runs (7 : ℕ)
        have hbefore : chunks (7 : ℕ) (since tr (7 : ℕ)) = cs := by
          rw [← hs]
          exact hchunks
        have hbrought : chunks (7 : ℕ) [(⟨.read (7 : ℕ) bufsiz, some d⟩ : Event IoRes)] = [c] := by
          simp [chunks, hne, d]
        have hquiet : chunks (7 : ℕ) [(⟨.write io₁.masterFd io₁.slaveBuf.data,
            some (Fin.last io₁.slaveBuf.data.length)⟩ : Event IoRes)] = [] := rfl
        show chunks io₁.slaveFd (since _ io₁.slaveFd) = cs ++ [c]
        rw [hs₁, since_append hsecond, since_append hfirst, chunks_append, chunks_append, hbefore]
        exact (congrArg (cs ++ · ++ []) hbrought).trans (List.append_nil _)
      · simp [Buffer.consume]
      · simpa [io₁] using hmaster

/-- The client's cookie is 16 times 0xaa, the server's 16 times 0xbb. -/
private def sampleAuth : Auth where
  saved := List.replicate 16 0xbb
  fake := List.replicate 16 0xaa
  same := rfl

private def samplePacket : SetupPacket sampleAuth.fake.length where
  header := [0x6c, 0, 11, 0, 0, 0, 18, 0, 16, 0, 0, 0]
  name := [77, 73, 84, 45, 77, 65, 71, 73, 67, 45, 67, 79, 79, 75, 73, 69, 45, 49, 0, 0]
  padding := []
  nameLen := 18
  header_length := rfl
  lengths := rfl
  name_length := by decide
  padding_length := rfl
  carries := by decide

private def sampleSetup : Bytes := samplePacket.bytes sampleAuth.fake

private theorem sample_whole : ∀ c ∈ [sampleSetup], c ≠ [] ∧ c.length ≤ bufsiz := by decide

private theorem sample_split : ∀ c ∈ [sampleSetup.take 11, sampleSetup.drop 11],
    c ≠ [] ∧ c.length ≤ bufsiz := by decide

/-- The setup packet in one read, and in two of which the first has eleven bytes. -/
theorem boundary_changes_stream :
    ∃ (io io' : IoX11) (t t' : Table) (tr tr' : Events),
      Reach (some sampleAuth) [some io] t tr ∧ Reach (some sampleAuth) [some io'] t' tr' ∧
      clientChunks io tr = [sampleSetup] ∧
      clientChunks io' tr' = [sampleSetup.take 11, sampleSetup.drop 11] ∧
      stream io tr = stream io' tr' ∧
      forwarded io tr = samplePacket.bytes sampleAuth.saved ∧
      forwarded io' tr' = samplePacket.bytes sampleAuth.fake ∧
      forwarded io tr ≠ forwarded io' tr' := by
  obtain ⟨io, t, tr, h, hchunks, -⟩ := every_division_occurs (some sampleAuth) _ sample_whole
  obtain ⟨io', t', tr', h', hchunks', -⟩ := every_division_occurs (some sampleAuth) _ sample_split
  have hreal : forwarded io tr = samplePacket.bytes sampleAuth.saved := by
    rw [forwarded_eq (i := 0) h rfl, hchunks]
    decide
  have hfake : forwarded io' tr' = samplePacket.bytes sampleAuth.fake := by
    rw [forwarded_eq (i := 0) h' rfl, hchunks']
    decide
  refine ⟨io, io', t, t', tr, tr', h, h', hchunks, hchunks', ?_, hreal, hfake, ?_⟩
  · rw [stream, stream, hchunks, hchunks']
    decide
  · rw [hreal, hfake]
    decide

theorem substitution_agrees_iff_sample :
    ∃ (io io' : IoX11) (tr tr' : Events),
      clientChunks io tr = [sampleSetup] ∧
      clientChunks io' tr' = [sampleSetup.take 11, sampleSetup.drop 11] ∧
      ((forwarded io tr = forwarded io' tr' ∧
          ∀ (pkt : SetupPacket sampleAuth.fake.length) (rest : Bytes),
            stream io tr = pkt.bytes sampleAuth.fake ++ rest →
              forwarded io tr = pkt.bytes sampleAuth.saved ++ rest) ↔
        ∀ (pkt : SetupPacket sampleAuth.fake.length) (rest : Bytes),
          stream io tr = pkt.bytes sampleAuth.fake ++ rest →
            sampleAuth.saved = sampleAuth.fake ∨
              (FirstReadCovers pkt.size (clientChunks io tr) ∧
                FirstReadCovers pkt.size (clientChunks io' tr'))) := by
  obtain ⟨io, t, tr, h, hchunks, -⟩ := every_division_occurs (some sampleAuth) _ sample_whole
  obtain ⟨io', t', tr', h', hchunks', -⟩ := every_division_occurs (some sampleAuth) _ sample_split
  have hstream : stream io tr = stream io' tr' := by
    rw [stream, stream, hchunks, hchunks']
    decide
  exact ⟨io, io', tr, tr', hchunks, hchunks',
    substitution_agrees_iff (i := 0) (j := 0) h h' rfl rfl hstream⟩

end HasherPriv.IoLoop.Cookie
