import Perftest.Lib.CString

namespace Perftest

open CString

/-- The `int` fields are held by their 32 bits, as the `x` conversions print and store them. -/
structure PingpongDest where
  lid : UInt32
  outReads : UInt32
  qpn : UInt32
  psn : UInt32
  rkey : UInt32
  vaddr : UInt64
  tailMarkersVaddr : UInt64
  gid : Fin 16 → UInt8
  srqn : UInt32
  gidIndex : Int

def KEY_MSG_SIZE : Nat := 59
def KEY_MSG_SIZE_GID : Nat := 108
def KEY_MSG_SIZE_DV : Nat := 76
def KEY_MSG_SIZE_GID_DV : Nat := 125

/-- The message size for a GID index, with or without data validation. -/
def keyMsgSize (gidIndex : Int) (dv : Bool) : Nat :=
  if gidIndex = -1 then if dv then KEY_MSG_SIZE_DV else KEY_MSG_SIZE
  else if dv then KEY_MSG_SIZE_GID_DV else KEY_MSG_SIZE_GID

def COLON : UInt8 := 58

/-- The fields in front of the GID, with their widths in the print formats. -/
def keyFields (d : PingpongDest) (dv : Bool) : List (Nat × Nat) :=
  [(4, d.lid.toNat), (4, d.outReads.toNat), (6, d.qpn.toNat), (6, d.psn.toNat),
    (8, d.rkey.toNat), (16, d.vaddr.toNat)] ++
    if dv then [(16, d.tailMarkersVaddr.toNat)] else []

def gidFields (d : PingpongDest) : List (Nat × Nat) :=
  (List.ofFn d.gid).map fun b => (2, b.toNat)

/-- Conversions that are each followed by a colon. -/
def printEnded (fs : List (Nat × Nat)) : Text := fs.flatMap fun f => padHex f.1 f.2 ++ [COLON]

/-- The message that `ethernet_write_keys` prints, with its terminator. -/
def ethernetWriteKeys (myDest : PingpongDest) (dv : Bool) : Text :=
  if myDest.gidIndex = -1 then
    printFields COLON (keyFields myDest dv ++ [(8, myDest.srqn.toNat)]) ++ [0]
  else printEnded (keyFields myDest dv ++ gidFields myDest ++ [(8, myDest.srqn.toNat)]) ++ [0]

/-- How the reader fails: a short read or a line that does not parse makes it return an error; a
missing colon or a token longer than `tmp` is undefined. -/
inductive ReadFault where
  | shortRead
  | unparsed
  | undefined
deriving DecidableEq, Repr

/-- `strpbrk` up to the next colon and the copy into `tmp[120]`. -/
def nextToken (pstr : Text) : Except ReadFault (Text × Text) :=
  match CString.splitAt COLON pstr with
  | some (tmp, rest) => if tmp.length < 120 then .ok (tmp, rest) else .error .undefined
  | none => .error .undefined

def readGidBytes : Nat → Text → Except ReadFault (List UInt8 × Text)
  | 0, pstr => .ok ([], pstr)
  | n + 1, pstr => do
    let (tmp, pstr) ← nextToken pstr
    let (bs, pstr) ← readGidBytes n pstr
    .ok (UInt8.ofInt (strtol tmp) :: bs, pstr)

/-- The parse in the LID formats. -/
def parseLidKeys (remDest : PingpongDest) (dv : Bool) (msg : Text) :
    Except ReadFault PingpongDest :=
  if dv then
    match scanFields COLON [4, 4, 6, 6, 8, 16, 16, 8] (cstr msg) with
    | [lid, outReads, qpn, psn, rkey, vaddr, tailMarkersVaddr, srqn] =>
      .ok { remDest with
        lid := UInt32.ofInt lid, outReads := UInt32.ofInt outReads, qpn := UInt32.ofInt qpn
        psn := UInt32.ofInt psn, rkey := UInt32.ofInt rkey, vaddr := UInt64.ofInt vaddr
        tailMarkersVaddr := UInt64.ofInt tailMarkersVaddr, srqn := UInt32.ofInt srqn }
    | _ => .error .unparsed
  else
    match scanFields COLON [4, 4, 6, 6, 8, 16, 8] (cstr msg) with
    | [lid, outReads, qpn, psn, rkey, vaddr, srqn] =>
      .ok { remDest with
        lid := UInt32.ofInt lid, outReads := UInt32.ofInt outReads, qpn := UInt32.ofInt qpn
        psn := UInt32.ofInt psn, rkey := UInt32.ofInt rkey, vaddr := UInt64.ofInt vaddr
        srqn := UInt32.ofInt srqn }
    | _ => .error .unparsed

/-- The walk over the GID formats. The last GID byte is read without moving to its colon, so the
next step counts its three characters. -/
def parseGidKeys (remDest : PingpongDest) (dv : Bool) (msg : Text) :
    Except ReadFault PingpongDest := do
  let (lid, pstr) ← nextToken msg
  let (outReads, pstr) ← nextToken pstr
  let (qpn, pstr) ← nextToken pstr
  let (psn, pstr) ← nextToken pstr
  let (rkey, pstr) ← nextToken pstr
  let (vaddr, pstr) ← nextToken pstr
  let (tailMarkersVaddr, pstr) ←
    if dv then do
      let (tmp, pstr) ← nextToken pstr
      .ok (UInt64.ofNat (strtoull tmp), pstr)
    else .ok (remDest.tailMarkersVaddr, pstr)
  let (gid, pstr) ← readGidBytes 15 pstr
  let last ← if (cstr pstr).length < 120 then .ok (UInt8.ofInt (strtol (cstr pstr)))
    else .error .undefined
  let (srqn, _) ← nextToken (pstr.drop 3)
  .ok { remDest with
    lid := UInt32.ofInt (strtol lid), outReads := UInt32.ofInt (strtol outReads)
    qpn := UInt32.ofInt (strtol qpn), psn := UInt32.ofInt (strtol psn)
    rkey := UInt32.ofNat (strtoull rkey), vaddr := UInt64.ofNat (strtoull vaddr)
    tailMarkersVaddr := tailMarkersVaddr, gid := fun i => (gid ++ [last]).getD i 0
    srqn := UInt32.ofNat (strtoull srqn) }

/-- `ethernet_read_keys` on the bytes that its one call of `read` returned. -/
def ethernetReadKeys (remDest : PingpongDest) (dv : Bool) (msg : Text) :
    Except ReadFault PingpongDest :=
  if msg.length ≠ keyMsgSize remDest.gidIndex dv then .error .shortRead
  else if remDest.gidIndex = -1 then parseLidKeys remDest dv msg
  else parseGidKeys remDest dv msg

/-- The values that fit their columns: LIDs and read depths of 16 bits, QP and packet sequence
numbers of 24. -/
structure PingpongDest.InRange (d : PingpongDest) : Prop where
  lid : d.lid.toNat < 2 ^ 16
  outReads : d.outReads.toNat < 2 ^ 16
  qpn : d.qpn.toNat < 2 ^ 24
  psn : d.psn.toNat < 2 ^ 24

/-- What a message of the format of `d` makes of `remDest`. -/
def receivedKeys (remDest d : PingpongDest) (dv : Bool) : PingpongDest :=
  { d with
    tailMarkersVaddr := if dv then d.tailMarkersVaddr else remDest.tailMarkersVaddr
    gid := if d.gidIndex = -1 then remDest.gid else d.gid
    gidIndex := remDest.gidIndex }

section RoundTrip

variable {d remDest : PingpongDest} (dv : Bool)

theorem keyFields_fits (h : d.InRange) : Fits (keyFields d dv) := by
  have hr := d.rkey.toNat_lt
  have hv := d.vaddr.toNat_lt
  have ht := d.tailMarkersVaddr.toNat_lt
  obtain ⟨h1, h2, h3, h4⟩ := h
  unfold keyFields
  apply fits_append
  · apply fits_cons (by omega) (by omega)
    apply fits_cons (by omega) (by omega)
    apply fits_cons (by omega) (by omega)
    apply fits_cons (by omega) (by omega)
    apply fits_cons (by omega) (by omega)
    exact fits_cons (by omega) (by omega) fits_nil
  · split
    · exact fits_cons (by omega) (by omega) fits_nil
    · exact fits_nil

theorem srqn_fits (d : PingpongDest) : Fits [(8, d.srqn.toNat)] := by
  have hs := d.srqn.toNat_lt
  exact fits_cons (by omega) (by omega) fits_nil

theorem gidFields_fits (d : PingpongDest) : Fits (gidFields d) := by
  intro f hf
  obtain ⟨b, -, rfl⟩ := List.mem_map.mp hf
  have := b.toNat_lt
  constructor
  · exact Nat.le_succ 1
  · change b.toNat < 256
    omega

theorem gidFields_width (d : PingpongDest) : ((gidFields d).map fun f => f.1 + 1).sum = 48 := by
  simp [gidFields]

theorem printEnded_length {fs : List (Nat × Nat)} (h : Fits fs) :
    (printEnded fs).length = (fs.map fun f => f.1 + 1).sum := by
  induction fs with
  | nil => rfl
  | cons f fs ih =>
    obtain ⟨hw, hn⟩ := h f (by simp)
    have hi := ih fun x hx => h x (by simp [hx])
    simp only [printEnded, List.flatMap_cons, List.length_append, padHex_eq hw hn,
      fixedHex_length, List.length_singleton, List.map_cons, List.sum_cons] at hi ⊢
    omega

theorem ethernetWriteKeys_length (h : d.InRange) :
    (ethernetWriteKeys d dv).length = keyMsgSize d.gidIndex dv := by
  have hk := keyFields_fits dv h
  unfold ethernetWriteKeys keyMsgSize
  split
  · have hl := printFields_length COLON (fits_append hk (srqn_fits d)) (by simp)
    rw [List.length_append]
    simp only [List.length_singleton, hl]
    cases dv <;> rfl
  · have hl := printEnded_length (fits_append (fits_append hk (gidFields_fits d)) (srqn_fits d))
    rw [List.map_append, List.map_append, List.sum_append, List.sum_append, gidFields_width] at hl
    rw [List.length_append, hl]
    cases dv <;> rfl

theorem isHex_colon : isHex COLON = false := by decide

theorem stops_colon (rest : Text) : Stops (COLON :: rest) := stops_cons (by decide)

/-- The LID formats: each conversion of the reader takes the field the writer printed. -/
theorem parseLidKeys_round (h : d.InRange) (hg : d.gidIndex = -1) :
    parseLidKeys remDest dv (ethernetWriteKeys d dv) =
      .ok (receivedKeys remDest d dv) := by
  have hf := fits_append (keyFields_fits dv h) (srqn_fits d)
  have hc : cstr (ethernetWriteKeys d dv) =
      printFields COLON (keyFields d dv ++ [(8, d.srqn.toNat)]) := by
    rw [ethernetWriteKeys, if_pos hg]
    exact cstr_append (printFields_ne hf (by decide) (by decide))
  have hs := scanFields_printFields COLON hf
  rw [parseLidKeys, hc]
  cases dv
  · simp only [keyFields, Bool.false_eq_true, if_false, List.append_nil, List.cons_append,
      List.nil_append, List.map_cons, List.map_nil] at hs ⊢
    simp [hs, receivedKeys, hg, ofInt_toNat_uint32, ofInt_toNat_uint64]
  · simp only [keyFields, if_true, List.cons_append,
      List.nil_append, List.map_cons, List.map_nil] at hs ⊢
    simp [hs, receivedKeys, hg, ofInt_toNat_uint32, ofInt_toNat_uint64]

theorem nextToken_field {w n : Nat} (rest : Text) (hw : w < 120) :
    nextToken (fixedHex w n ++ COLON :: rest) = .ok (fixedHex w n, rest) := by
  have hd : ∀ b ∈ fixedHex w n, b ≠ COLON ∧ b ≠ 0 := by
    intro b hb
    have hx := isHex_of_mem_fixedHex hb
    constructor
    · rintro rfl
      exact absurd hx (by decide)
    · rintro rfl
      exact absurd hx (by decide)
  rw [nextToken, splitAt_append hd]
  simp only [fixedHex_length, if_pos hw]

theorem printEnded_cons {w n : Nat} {fs : List (Nat × Nat)} (rest : Text) (hw : 1 ≤ w)
    (hn : n < 16 ^ w) :
    printEnded ((w, n) :: fs) ++ rest = fixedHex w n ++ COLON :: (printEnded fs ++ rest) := by
  simp [printEnded, padHex_eq hw hn]

theorem nextToken_printEnded {w n : Nat} {fs : List (Nat × Nat)} (rest : Text) (hw : 1 ≤ w)
    (hn : n < 16 ^ w) (ht : w < 120) :
    nextToken (printEnded ((w, n) :: fs) ++ rest) =
      .ok (fixedHex w n, printEnded fs ++ rest) := by
  rw [printEnded_cons rest hw hn, nextToken_field _ ht]

theorem readGidBytes_printed (bs : List UInt8) (rest : Text) :
    readGidBytes bs.length (printEnded (bs.map fun b => (2, b.toNat)) ++ rest) =
      .ok (bs, rest) := by
  induction bs with
  | nil => rfl
  | cons b bs ih =>
    have hb := b.toNat_lt
    have hv := strtol_fixedHex (w := 2) (n := b.toNat) (by omega) (by omega) (by omega)
    rw [List.map_cons, List.length_cons, readGidBytes,
      nextToken_printEnded rest (by omega) (by omega) (by omega)]
    simp only [Except.bind, bind, ih, hv, ofInt_toNat_uint8]

/-- The GID without its last byte. -/
def gidFront (d : PingpongDest) : List UInt8 := List.ofFn fun i : Fin 15 => d.gid i.castSucc

theorem ofFn_gid (d : PingpongDest) : List.ofFn d.gid = gidFront d ++ [d.gid 15] := by
  exact List.ofFn_succ_last

/-- The bytes behind the fifteenth colon of the GID. -/
def gidTail (d : PingpongDest) : Text :=
  fixedHex 2 (d.gid 15).toNat ++ COLON :: (fixedHex 8 d.srqn.toNat ++ [COLON, 0])

theorem printEnded_gid (d : PingpongDest) :
    printEnded (gidFields d ++ [(8, d.srqn.toNat)]) ++ [0] =
      printEnded ((gidFront d).map fun b => (2, b.toNat)) ++ gidTail d := by
  have h2 : padHex 2 (d.gid 15).toNat = fixedHex 2 (d.gid 15).toNat :=
    padHex_eq (by omega) (d.gid 15).toNat_lt
  have h8 : padHex 8 d.srqn.toNat = fixedHex 8 d.srqn.toNat :=
    padHex_eq (by omega) d.srqn.toNat_lt
  rw [gidFields, ofFn_gid]
  simp [printEnded, gidTail, h2, h8]

theorem cstr_gidTail (d : PingpongDest) :
    cstr (gidTail d) =
      fixedHex 2 (d.gid 15).toNat ++ COLON :: (fixedHex 8 d.srqn.toNat ++ [COLON]) := by
  have hne : ∀ w n : Nat, ∀ b ∈ fixedHex w n, b ≠ 0 := by
    rintro w n b hb rfl
    exact absurd (isHex_of_mem_fixedHex hb) (by decide)
  have hsplit : gidTail d = (fixedHex 2 (d.gid 15).toNat ++ COLON ::
      (fixedHex 8 d.srqn.toNat ++ [COLON])) ++ 0 :: [] := by
    simp [gidTail]
  rw [hsplit]
  apply cstr_append
  intro b hb
  simp only [List.mem_append, List.mem_cons, List.not_mem_nil, or_false] at hb
  rcases hb with hb | rfl | hb | rfl
  · exact hne _ _ b hb
  · decide
  · exact hne _ _ b hb
  · decide

theorem gidTail_drop (d : PingpongDest) :
    (gidTail d).drop 3 = fixedHex 8 d.srqn.toNat ++ COLON :: [0] := by
  have hl := fixedHex_length 2 (d.gid 15).toNat
  rw [gidTail, List.drop_append, List.drop_of_length_le (by omega), hl]
  rfl

theorem gidFront_get (d : PingpongDest) :
    (fun i : Fin 16 => (gidFront d ++ [d.gid 15]).getD i 0) = d.gid := by
  funext i
  rw [← ofFn_gid, List.getD_eq_getElem?_getD, List.getElem?_ofFn, dif_pos i.isLt]
  rfl

/-- The GID formats: every token of the walk is the field the writer printed. -/
theorem parseGidKeys_round (h : d.InRange) (hg : d.gidIndex ≠ -1) :
    parseGidKeys remDest dv (ethernetWriteKeys d dv) =
      .ok (receivedKeys remDest d dv) := by
  have hk := keyFields_fits dv h
  have hgid := readGidBytes_printed (gidFront d) (gidTail d)
  have hlen : (gidFront d).length = 15 := by simp [gidFront]
  rw [hlen, ← printEnded_gid] at hgid
  have hmsg : ethernetWriteKeys d dv = printEnded (keyFields d dv) ++
      (printEnded (gidFields d ++ [(8, d.srqn.toNat)]) ++ [0]) := by
    rw [ethernetWriteKeys, if_neg hg]
    simp [printEnded]
  have hr := d.rkey.toNat_lt
  have hv := d.vaddr.toNat_lt
  have ht := d.tailMarkersVaddr.toNat_lt
  have hq := d.srqn.toNat_lt
  have hb := (d.gid 15).toNat_lt
  obtain ⟨h1, h2, h3, h4⟩ := h
  have hlast := strtol_append (w := 2) (n := (d.gid 15).toNat) (by omega) (by omega) (by omega)
    (stops_colon (fixedHex 8 d.srqn.toNat ++ [COLON]))
  have hcl : (cstr (gidTail d)).length < 120 := by
    rw [cstr_gidTail]
    simp [fixedHex_length]
  rw [hmsg]
  generalize printEnded (gidFields d ++ [(8, d.srqn.toNat)]) ++ [0] = rest at hgid
  have hlid := strtol_fixedHex (w := 4) (n := d.lid.toNat) (by omega) (by omega) (by omega)
  have hout := strtol_fixedHex (w := 4) (n := d.outReads.toNat) (by omega) (by omega) (by omega)
  have hqpn := strtol_fixedHex (w := 6) (n := d.qpn.toNat) (by omega) (by omega) (by omega)
  have hpsn := strtol_fixedHex (w := 6) (n := d.psn.toNat) (by omega) (by omega) (by omega)
  have hrkey := strtoull_fixedHex (w := 8) (n := d.rkey.toNat) (by omega) (by omega) (by omega)
  have hva := strtoull_fixedHex (w := 16) (n := d.vaddr.toNat) (by omega) (by omega) hv
  have htail := strtoull_fixedHex (w := 16) (n := d.tailMarkersVaddr.toNat) (by omega) (by omega) ht
  have hsrqn := strtoull_fixedHex (w := 8) (n := d.srqn.toNat) (by omega) (by omega) (by omega)
  have hnil : printEnded [] ++ rest = rest := rfl
  cases dv
  · simp (disch := omega) only [parseGidKeys, keyFields, Bool.false_eq_true, if_false,
      List.append_nil, bind, Except.bind, nextToken_printEnded, hnil, hgid, hcl, if_true,
      gidTail_drop, nextToken_field]
    simp only [hlid, hout, hqpn, hpsn, hrkey, hva, hsrqn, cstr_gidTail, hlast, gidFront_get,
      ofInt_toNat_uint32, ofInt_toNat_uint8, UInt32.ofNat_toNat, UInt64.ofNat_toNat,
      receivedKeys, hg, if_false, Bool.false_eq_true]
  · simp (disch := omega) only [parseGidKeys, keyFields, if_true, List.cons_append,
      List.nil_append, bind, Except.bind, nextToken_printEnded, hnil, hgid, hcl,
      gidTail_drop, nextToken_field]
    simp only [hlid, hout, hqpn, hpsn, hrkey, hva, htail, hsrqn, cstr_gidTail, hlast,
      gidFront_get, ofInt_toNat_uint32, ofInt_toNat_uint8, UInt32.ofNat_toNat,
      UInt64.ofNat_toNat, receivedKeys, hg, if_false, if_true]

/-- Two GID indices choose the same format. -/
def SameFormat (g g' : Int) : Prop := g = -1 ↔ g' = -1

theorem keyMsgSize_congr {g g' : Int} (h : SameFormat g g') :
    keyMsgSize g dv = keyMsgSize g' dv := by
  unfold SameFormat at h
  simp only [keyMsgSize, h]

theorem ethernetReadKeys_written (h : d.InRange) (hs : SameFormat remDest.gidIndex d.gidIndex) :
    ethernetReadKeys remDest dv (ethernetWriteKeys d dv) = .ok (receivedKeys remDest d dv) := by
  have hl := ethernetWriteKeys_length dv h
  rw [← keyMsgSize_congr dv hs] at hl
  rw [ethernetReadKeys, if_neg (not_not.mpr hl)]
  split
  next hg => exact parseLidKeys_round dv h (hs.mp hg)
  next hg => exact parseGidKeys_round dv h (mt hs.mpr hg)

end RoundTrip

/-- Each format has the size its reader asks for, and reading it gives back what was written. -/
theorem keys_round_trip (remDest d : PingpongDest) (dv : Bool) (h : d.InRange)
    (hs : SameFormat remDest.gidIndex d.gidIndex) :
    (ethernetWriteKeys d dv).length = keyMsgSize remDest.gidIndex dv ∧
      ethernetReadKeys remDest dv (ethernetWriteKeys d dv) = .ok (receivedKeys remDest d dv) := by
  have hl := ethernetWriteKeys_length dv h
  rw [← keyMsgSize_congr dv hs] at hl
  exact ⟨hl, ethernetReadKeys_written dv h hs⟩

/-- A destination with every column full. -/
def fullKeys : PingpongDest :=
  { lid := 65535, outReads := 65535, qpn := 16777215, psn := 16777215, rkey := 4294967295,
    vaddr := 18446744073709551615, tailMarkersVaddr := 18446744073709551615,
    gid := fun _ => 255, srqn := 4294967295, gidIndex := 3 }

theorem fullKeys_round_trip : (ethernetWriteKeys fullKeys true).length = 125 ∧
    ethernetReadKeys fullKeys true (ethernetWriteKeys fullKeys true) = .ok fullKeys :=
  keys_round_trip fullKeys fullKeys true ⟨by decide, by decide, by decide, by decide⟩ Iff.rfl

end Perftest
