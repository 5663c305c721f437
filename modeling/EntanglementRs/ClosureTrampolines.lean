import EntanglementRs.Trampolines
import EntanglementRs.Lib.WellFormedText

/-!
# The trampolines of the closure setters

What the `extern "C"` functions behind `set_on_*` hand to the closure, beside
what the bridges make of the same call.  Headers, endpoints and slices are read
alike; texts are decoded strictly here and lossily there.
-/

namespace EntanglementRs

open LossyText (Reads utf8Bytes replacement)

/-- `CStr::to_str`. -/
def toStr? (bytes : List UInt8) : Option String := String.fromUTF8? bytes.toByteArray

/-- `to_str().unwrap_or("")`, and the empty text for null. -/
def strictAddr (mem : CMemory) (address : Option Ptr) : String :=
  match address with
  | none => ""
  | some p => (toStr? (mem.cstr p)).getD ""

def srvDataCb (mem : CMemory) (header payload : Ptr) (payloadSize : ℕ)
    (sender : RawEndpoint) : EntPacketHeader × List UInt8 × EntEndpoint :=
  (EntPacketHeader.ofRaw (mem.header header), mem.slice payload payloadSize,
    EntEndpoint.ofRaw sender)

def srvConnectedCb (mem : CMemory) (key : RawEndpoint) (address : Option Ptr)
    (port : UInt16) : EntEndpoint × String × UInt16 :=
  (EntEndpoint.ofRaw key, strictAddr mem address, port)

def srvDisconnectedCb (mem : CMemory) (key : RawEndpoint) (address : Option Ptr)
    (port : UInt16) : EntEndpoint × String × UInt16 :=
  (EntEndpoint.ofRaw key, strictAddr mem address, port)

def cliDataCb (mem : CMemory) (header payload : Ptr) (payloadSize : ℕ) :
    EntPacketHeader × List UInt8 :=
  (EntPacketHeader.ofRaw (mem.header header), mem.slice payload payloadSize)

/-- `to_string_repr`, over what the C function leaves in the buffer of zeros. -/
def EntEndpoint.toStringRepr
    (entEndpointToString : RawEndpoint → Vector UInt8 16 → Vector UInt8 16)
    (ep : EntEndpoint) : String :=
  let buf := (entEndpointToString ep.toRaw (Vector.replicate 16 0)).toList
  let len := (buf.findIdx? (· == 0)).getD 16
  LossyText.decode (buf.take len)

/-! ## Texts -/

theorem toStr?_utf8Bytes (s : String) : toStr? (utf8Bytes s) = some s :=
  LossyText.fromUTF8?_eq_some_iff.mpr rfl

theorem toStr?_eq_none {bytes : List UInt8} (h : ∀ s, bytes ≠ utf8Bytes s) :
    toStr? bytes = none := by
  cases hstr : toStr? bytes with
  | none => rfl
  | some s => exact absurd (LossyText.fromUTF8?_eq_some_iff.mp hstr) (h s)

/-- The texts of one address: strictly decoded for a closure, lossily for an event.  Bytes
that are no text are dropped by the one and marked by the other. -/
structure AddressTexts (mem : CMemory) (address : Option Ptr) (strict lossy : String) :
    Prop where
  null : address = none → strict = "" ∧ lossy = ""
  text : ∀ p s, address = some p → mem.cstr p = utf8Bytes s → strict = s ∧ lossy = s
  illFormed : ∀ p, address = some p → (∀ s, mem.cstr p ≠ utf8Bytes s) →
    strict = "" ∧ replacement ∈ lossy.toList ∧ Reads (mem.cstr p) lossy.toList
  agree : strict = lossy ↔ ∀ p, address = some p → ∃ s, mem.cstr p = utf8Bytes s

variable {mem : CMemory} {p : Ptr} {s : String}

theorem addr_of_text (htext : mem.cstr p = utf8Bytes s) :
    strictAddr mem (some p) = s ∧ addrStr mem (some p) = s := by
  constructor
  · rw [strictAddr, htext, toStr?_utf8Bytes]
    rfl
  · exact (carriesText_addrStr mem (some p)).encoded p s rfl htext

theorem addr_of_illFormed (hill : ∀ s, mem.cstr p ≠ utf8Bytes s) :
    strictAddr mem (some p) = "" ∧ replacement ∈ (addrStr mem (some p)).toList := by
  have hnone := toStr?_eq_none hill
  constructor
  · rw [strictAddr, hnone]
    rfl
  · exact LossyText.replacement_mem_decode hnone

theorem addr_agree_iff (address : Option Ptr) :
    strictAddr mem address = addrStr mem address ↔
      ∀ p, address = some p → ∃ s, mem.cstr p = utf8Bytes s := by
  cases address with
  | none => simp [addrStr, strictAddr]
  | some p =>
      constructor
      · rintro hagree q ⟨⟩
        by_contra hill
        rw [not_exists] at hill
        obtain ⟨hempty, hmark⟩ := addr_of_illFormed hill
        rw [← hagree, hempty] at hmark
        simp at hmark
      · intro htext
        obtain ⟨s, hs⟩ := htext p rfl
        rw [(addr_of_text hs).1, (addr_of_text hs).2]

theorem addressTexts_addr (mem : CMemory) (address : Option Ptr) :
    AddressTexts mem address (strictAddr mem address) (addrStr mem address) where
  null := by
    rintro rfl
    exact ⟨rfl, rfl⟩
  text := by
    rintro p s rfl htext
    exact addr_of_text htext
  illFormed := by
    rintro p rfl hill
    obtain ⟨hempty, hmark⟩ := addr_of_illFormed hill
    exact ⟨hempty, hmark, (carriesText_addrStr mem (some p)).lossy p rfl⟩
  agree := addr_agree_iff address

/-! ## One call, two reports -/

/-- A closure and an event, built by `make`, that report one call about a client. -/
structure ClientReport (mem : CMemory) (key : RawEndpoint) (address : Option Ptr)
    (port : UInt16) (make : EntEndpoint → String → UInt16 → ServerEvent)
    (closure : EntEndpoint × String × UInt16) (event : ServerEvent) : Prop where
  endpoint : CarriesEndpoint key closure.1
  port : closure.2.2 = port
  event : ∃ text, event = make closure.1 text closure.2.2 ∧
    AddressTexts mem address closure.2.1 text

/-- A closure and an event that report one message to the server. -/
structure ServerDataReport (mem : CMemory) (header payload : Ptr) (size : ℕ)
    (sender : RawEndpoint) (closure : EntPacketHeader × List UInt8 × EntEndpoint)
    (event : ServerEvent) : Prop where
  header : CarriesHeader (mem.header header) closure.1
  bytes : CarriesBytes mem payload size closure.2.1
  sender : CarriesEndpoint sender closure.2.2
  event : event = .dataReceived closure.1 closure.2.1 closure.2.2

structure ClientDataReport (mem : CMemory) (header payload : Ptr) (size : ℕ)
    (closure : EntPacketHeader × List UInt8) (event : ClientEvent) : Prop where
  header : CarriesHeader (mem.header header) closure.1
  bytes : CarriesBytes mem payload size closure.2
  event : event = .dataReceived closure.1 closure.2

section

variable (mem : CMemory) (key : RawEndpoint) (address : Option Ptr) (port : UInt16)
variable (header payload : Ptr) (size : ℕ)

theorem connected_report :
    ClientReport mem key address port .clientConnected
      (srvConnectedCb mem key address port)
      (onClientConnectedTrampoline mem key address port) where
  endpoint := carriesEndpoint_ofRaw key
  port := rfl
  event := ⟨_, rfl, addressTexts_addr mem address⟩

theorem disconnected_report :
    ClientReport mem key address port .clientDisconnected
      (srvDisconnectedCb mem key address port)
      (onClientDisconnectedTrampoline mem key address port) where
  endpoint := carriesEndpoint_ofRaw key
  port := rfl
  event := ⟨_, rfl, addressTexts_addr mem address⟩

theorem srvDataCb_report :
    ServerDataReport mem header payload size key
      (srvDataCb mem header payload size key)
      (onClientDataTrampoline mem header payload size key) where
  header := carriesHeader_ofRaw _
  bytes := carriesBytes_slice mem payload size
  sender := carriesEndpoint_ofRaw key
  event := rfl

theorem cliDataCb_report :
    ClientDataReport mem header payload size (cliDataCb mem header payload size)
      (onDataReceivedTrampoline mem header payload size) where
  header := carriesHeader_ofRaw _
  bytes := carriesBytes_slice mem payload size
  event := rfl

end

/-! ## The text of an endpoint -/

theorem toStringRepr_eq (f : RawEndpoint → Vector UInt8 16 → Vector UInt8 16)
    (ep : EntEndpoint) :
    ep.toStringRepr f = LossyText.decode
      ((f ep.toRaw (Vector.replicate 16 0)).toList.takeWhile fun b => !(b == 0)) := by
  have hlength : (f ep.toRaw (Vector.replicate 16 0)).toList.length = 16 :=
    Vector.length_toList
  unfold EntEndpoint.toStringRepr
  rw [List.takeWhile_eq_take_findIdx_not, List.findIdx_eq_getD_findIdx?, hlength]
  simp only [Bool.not_not]

theorem nul_notMem_of_cString? (hs : cString? s = some s) : 0 ∉ utf8Bytes s := by
  intro hzero
  have hnul := LossyText.zero_mem_utf8Bytes hzero
  unfold cString? at hs
  rw [if_pos (List.contains_iff_mem.mpr hnul)] at hs
  contradiction

/-- Of what the C function leaves in the buffer the bytes before the first NUL are read. -/
structure EndpointText (f : RawEndpoint → Vector UInt8 16 → Vector UInt8 16)
    (ep : EntEndpoint) (text : String) : Prop where
  read : Reads ((f ep.toRaw (Vector.replicate 16 0)).toList.takeWhile fun b => !(b == 0))
    text.toList
  back : ∀ s rest, cString? s = some s →
    (f ep.toRaw (Vector.replicate 16 0)).toList = utf8Bytes s ++ 0 :: rest → text = s

theorem endpointText_toStringRepr (f : RawEndpoint → Vector UInt8 16 → Vector UInt8 16)
    (ep : EntEndpoint) : EndpointText f ep (ep.toStringRepr f) where
  read := by
    rw [toStringRepr_eq]
    exact LossyText.reads_decode _
  back s rest hs hbuf := by
    have hnonzero : ∀ b ∈ utf8Bytes s, (!(b == 0)) = true := by
      intro b hb
      have hne : b ≠ 0 := fun h => nul_notMem_of_cString? hs (h ▸ hb)
      simpa using hne
    rw [toStringRepr_eq, hbuf, List.takeWhile_append_of_pos hnonzero,
      List.takeWhile_cons_of_neg (by decide), List.append_nil, LossyText.decode_utf8Bytes]

/-! ## All trampolines -/

/-- What closures and events say of the same calls, and how endpoints are printed. -/
structure ReportsAlike (mem : CMemory)
    (f : RawEndpoint → Vector UInt8 16 → Vector UInt8 16) : Prop where
  connected : ∀ key address port,
    ClientReport mem key address port .clientConnected
      (srvConnectedCb mem key address port)
      (onClientConnectedTrampoline mem key address port)
  disconnected : ∀ key address port,
    ClientReport mem key address port .clientDisconnected
      (srvDisconnectedCb mem key address port)
      (onClientDisconnectedTrampoline mem key address port)
  serverData : ∀ header payload size sender,
    ServerDataReport mem header payload size sender
      (srvDataCb mem header payload size sender)
      (onClientDataTrampoline mem header payload size sender)
  clientData : ∀ header payload size,
    ClientDataReport mem header payload size (cliDataCb mem header payload size)
      (onDataReceivedTrampoline mem header payload size)
  endpoint : ∀ ep, EndpointText f ep (ep.toStringRepr f)

/-- Closures and events tell the same of every call but of an address that is no text. -/
theorem address_texts (mem : CMemory)
    (f : RawEndpoint → Vector UInt8 16 → Vector UInt8 16) : ReportsAlike mem f where
  connected := connected_report mem
  disconnected := disconnected_report mem
  serverData header payload size sender :=
    srvDataCb_report mem sender header payload size
  clientData := cliDataCb_report mem
  endpoint := endpointText_toStringRepr f

/-- C's memory with the digit 1 at 8, and with an ill-formed byte behind it at 16. -/
def CMemory.cutOff : CMemory where
  header := CMemory.zero.header
  bytes := CMemory.zero.bytes
  cstr := fun p => if p = 8 then [0x31] else [0x31, 0xFF]

theorem cutOff_illFormed (s : String) : CMemory.cutOff.cstr 16 ≠ utf8Bytes s := by
  intro htext
  have hs := LossyText.decode_utf8Bytes s
  rw [← htext] at hs
  rw [← hs] at htext
  exact absurd htext (by decide)

theorem address_texts_cutOff :
    srvDisconnectedCb .cutOff ⟨1, 2⟩ (some 8) 2 = (⟨1, 2⟩, "1", 2) ∧
      onClientDisconnectedTrampoline .cutOff ⟨1, 2⟩ (some 8) 2 =
        .clientDisconnected ⟨1, 2⟩ "1" 2 ∧
      srvDisconnectedCb .cutOff ⟨1, 2⟩ (some 16) 2 = (⟨1, 2⟩, "", 2) ∧
      onClientDisconnectedTrampoline .cutOff ⟨1, 2⟩ (some 16) 2 =
        .clientDisconnected ⟨1, 2⟩ "1\uFFFD" 2 := by
  have hreported := address_texts .cutOff fun _ buf => buf
  obtain ⟨_, _, htext⟩ := (hreported.disconnected ⟨1, 2⟩ (some 8) 2).event
  obtain ⟨_, _, hill⟩ := (hreported.disconnected ⟨1, 2⟩ (some 16) 2).event
  have hone := (htext.text 8 "1" rfl (by decide)).1
  have hempty := (hill.illFormed 16 rfl cutOff_illFormed).1
  refine ⟨?_, by decide, ?_, by decide⟩
  · simp only [srvDisconnectedCb] at hone ⊢
    rw [hone]
    rfl
  · simp only [srvDisconnectedCb] at hempty ⊢
    rw [hempty]
    rfl

end EntanglementRs
