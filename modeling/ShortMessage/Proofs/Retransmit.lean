import ShortMessage.Proofs.Archive
import ShortMessage.Proofs.Bounds
import ShortMessage.Proofs.Retry

/-!
# What is sent again

A complete message is relayed by one encoder and sent again by the other, from its cached row. The
row keeps all that the encoder needs but the `retain` byte, which an item read back has as zero:
what is sent again is what was relayed, with that byte cleared (`reaches_retransmits`).
-/

namespace ShortMessage

open CMemory

variable {cfg : Config} {w : World} {s s' : Server} {l : Label} {out : Out} {h : History}
  {head : Ptr} {m : Head} {n : ℕ} {r : CacheRow}

/-! ## Two encoders -/

def retainAt : ℕ := 11

/-- The message a complete message's request holds. -/
def Head.message (m : Head) (retain : Byte) (hnul : 0#8 ∉ m.text) (hshort : m.text.length ≤ 1011) :
    Message where
  toId := m.toId
  fromId := m.fromId
  frameId := m.frameId
  type := m.type
  retain := retain
  content := m.text
  noNul := hnul
  short := hshort

theorem readHead_overlays (hm : readHead head = .ok m) {retain : Byte}
    (hretain : ControlHead.retain head = .ok retain) (hnul : 0#8 ∉ m.text)
    (hshort : m.text.length ≤ 1011) : Message.Overlays head (m.message retain hnul hshort) := by
  obtain ⟨ht, hf, hc, hty, htext⟩ := readHead_eq_ok.1 hm
  exact ⟨(map_eq_ok ntohl_htonl).2 ht, (map_eq_ok ntohl_htonl).2 hf, (map_eq_ok ntohs_htons).2 hc,
    hty, hretain, htext⟩

/-- The encoder of items does not look at where an item comes from. -/
theorem keeps_encode (hk : r.Keeps m) (hnul : 0#8 ∉ m.text) (hshort : m.text.length ≤ 1011) :
    messageEncodeItem r.item = .ok (m.message 0 hnul hshort).image := by
  rw [← Message.messageEncodeItem_eq]
  have hto : r.item.toId = m.toId := by simp [CacheRow.item, hk.toUser]
  have hfrom : r.item.fromId = m.fromId := by simp [CacheRow.item, hk.fromUser]
  have hframe : r.item.frameId = m.frameId := by simp [CacheRow.item, hk.frameId]
  have htype : r.item.type = m.type := by simp [CacheRow.item, hk.type]
  have htext : r.item.content = m.text := hk.text
  simp only [messageEncodeItem, hto, hfrom, hframe, htype, htext, Head.message, Message.item]
  rfl

theorem image_retain (retain : Byte) (hnul : 0#8 ∉ m.text) (hshort : m.text.length ≤ 1011) :
    (m.message 0 hnul hshort).image = (m.message retain hnul hshort).image.set retainAt 0 := rfl

/-- What either encoder makes of a message, by its request and by a row that keeps it. -/
theorem encoders_agree (hm : readHead head = .ok m) (hshort : m.text.length ≤ 1011) :
    ∃ buf, messageEncode head = .ok buf ∧
      ∀ r : CacheRow, r.Keeps m → messageEncodeItem r.item = .ok (buf.set retainAt 0) := by
  have htext := (readHead_eq_ok.1 hm).2.2.2.2
  have hnul := noNul_of_cstr htext
  have hfits : 0#8 ∈ ControlHead.content head := inBounds_cstr.1 (by
    rw [htext]
    exact inBounds_ok _)
  obtain ⟨retain, hretain⟩ : ∃ retain, ControlHead.retain head = .ok retain :=
    ⟨_, read8_ok (by have := length_of_textFits hfits; omega)⟩
  refine ⟨_, Message.messageEncode_eq _ (readHead_overlays hm hretain hnul hshort), fun r hk => ?_⟩
  rw [keeps_encode hk hnul hshort, image_retain retain]

/-! ## Runs -/

/-- What was sent for the message of step `n`, at once and again, and what would be sent again. -/
structure Retransmits (h : History) (s : Server) (n : ℕ) (relayed resent : List Byte) : Prop where
  relayed : ∀ e, h[n]? = some e → ∀ m ∈ e.2.sent, m.level = 5 → m.buf = relayed
  cached : ∀ r ∈ s.db.messageCache, r.origin = n → messageEncodeItem r.item = .ok resent
  resent : ∀ m ∈ resends h n, m.buf = resent

/-- The buffers of a run are made by the encoders, of the requests and of rows that keep them. -/
structure Encodes (h : History) (s : Server) : Prop extends Sound h s where
  kept : ∀ r ∈ s.db.messageCache, r.KeptIn h
  relayed : ∀ e ∈ h, ∀ bytes, e.1.input = .request bytes →
    ControlHead.type (headOf bytes) = .ok SignalType.completeMessage.code →
      ∀ m ∈ e.2.sent, m.level = 5 → messageEncode (headOf bytes) = .ok m.buf
  resent : ∀ e ∈ h, ∀ x ∈ e.2.resent, ∃ r : CacheRow, r.KeptIn h ∧ r.item = x.1 ∧
    messageEncodeItem r.item = .ok x.2.buf

theorem encodes_start (sateCover : List SateRow) (userInfo : List ℤ) :
    Encodes [] (Server.start sateCover userInfo) :=
  ⟨sound_start sateCover userInfo, by simp [Server.start], by simp, by simp⟩

/-- The receipt a complete message's sender gets is of another level. -/
theorem step_relayed {bytes : List Byte} (h : step cfg s l = .ok (s', out))
    (hl : l.input = .request bytes)
    (hty : ControlHead.type (headOf bytes) = .ok SignalType.completeMessage.code) :
    ∀ m ∈ out.sent, m.level = 5 → messageEncode (headOf bytes) = .ok m.buf := by
  intro m hm hlevel
  obtain ⟨s₁, -, ⟨bytes', sent, hl', hlogic, rfl⟩ | ⟨hl', -⟩⟩ := step_returns h
  · rw [hl, Input.request.injEq] at hl'
    subst hl'
    rw [accessToLogic_completeMessage hty] at hlogic
    obtain ⟨_, -, ⟨-, heq⟩ | ⟨-, receipt, message, hreceipt, hmessage, heq⟩⟩ :=
      processCompleteMessage_returns hlogic
    · cases heq
      cases hm
    · cases heq
      rcases List.mem_append.1 hm with hm | hm
      · obtain ⟨-, -, hten, -⟩ := sendTo_returns hreceipt m hm
        omega
      · exact (sendTo_returns hmessage m hm).2.2.2.2
  · rw [hl] at hl'
    cases hl'

/-- What a pass sends is made of the rows it found. -/
theorem step_resent (h : step cfg s l = .ok (s', out)) : ∀ x ∈ out.resent,
    ∃ r ∈ s.db.messageCache, r.item = x.1 ∧ messageEncodeItem r.item = .ok x.2.buf := by
  intro x hx
  have he := (step_effect h).2
  generalize s'.db = db at he
  cases he with
  | quiet => cases hx
  | stored => cases hx
  | cached => cases hx
  | cleared => cases hx
  | passed _ hget hresend =>
    obtain ⟨hmem, -, -, hbuf⟩ := resendLoop_returns _ _ hresend x hx
    obtain ⟨r, hr, hitem⟩ := getAllOfflineMessage_items hget x.1 hmem
    exact ⟨r, hr, hitem, hitem ▸ hbuf⟩

theorem Encodes.next (hk : Encodes h s) (hs : step cfg s l = .ok (s', out)) :
    Encodes (h ++ [(l, out)]) s' := by
  refine ⟨hk.toSound.next hs, (step_effect hs).2.keptIn hk.served hk.kept, ?_, ?_⟩
  · intro e he bytes hl hty
    rcases List.mem_append.1 he with he | he
    · exact hk.relayed e he bytes hl hty
    · rw [List.mem_singleton.1 he] at hl ⊢
      exact step_relayed hs hl hty
  · intro e he x hx
    rcases List.mem_append.1 he with he | he
    · obtain ⟨r, hr, hitem⟩ := hk.resent e he x hx
      exact ⟨r, hr.concat (.refl r), hitem⟩
    · rw [List.mem_singleton.1 he] at hx
      obtain ⟨r, hr, hitem⟩ := step_resent hs x hx
      exact ⟨r, (hk.kept r hr).concat (.refl r), hitem⟩

theorem reaches_encodes {P : Server → Label → Prop} {sateCover : List SateRow} {userInfo : List ℤ}
    (hr : Run.Reaches (step cfg) P (Server.start sateCover userInfo) h s) : Encodes h s :=
  hr.invariant (encodes_start sateCover userInfo) fun _ _ _ _ _ hk _ hs => hk.next hs

/-- A row that is kept from step `n` keeps the message of that step. -/
theorem CacheRow.KeptIn.keeps {e : Label × Out} (hr : r.KeptIn h) (he : h[n]? = some e)
    (ht : e.1.Takes m) (horigin : r.origin = n) : r.Keeps m := by
  obtain ⟨e', m', he', ht', -, hk⟩ := hr
  rw [horigin, he, Option.some.injEq] at he'
  rw [he'] at ht
  rwa [ht.eq ht']

/-- In any run, a complete message is sent again as it was relayed, its `retain` byte cleared. -/
theorem reaches_retransmits {P : Server → Label → Prop} {sateCover : List SateRow}
    {userInfo : List ℤ} {e : Label × Out} {bytes : List Byte}
    (hr : Run.Reaches (step cfg) P (Server.start sateCover userInfo) h s)
    (he : h[n]? = some e) (hl : e.1.input = .request bytes)
    (hm : readHead (headOf bytes) = .ok m) (htype : m.type = SignalType.completeMessage.code)
    (hshort : m.text.length ≤ 1011) :
    ∃ buf, messageEncode (headOf bytes) = .ok buf ∧
      Retransmits h s n buf (buf.set retainAt 0) := by
  have hk := reaches_encodes hr
  obtain ⟨buf, hbuf, hagree⟩ := encoders_agree hm hshort
  have htakes : e.1.Takes m := ⟨bytes, hl, hm⟩
  refine ⟨buf, hbuf, ⟨?_, ?_, ?_⟩⟩
  · intro e' he' x hx hlevel
    rw [he, Option.some.injEq] at he'
    subst he'
    have hty := readHead_type hm
    rw [htype] at hty
    have := hk.relayed e (List.mem_of_getElem? he) bytes hl hty x hx hlevel
    rw [hbuf, Except.ok.injEq] at this
    exact this.symm
  · intro r hr horigin
    exact hagree r ((hk.kept r hr).keeps he htakes horigin)
  · intro x hx
    simp only [resends, List.mem_flatMap, List.mem_map, List.mem_filter, decide_eq_true_eq] at hx
    obtain ⟨e', he', y, ⟨hy, horigin⟩, rfl⟩ := hx
    obtain ⟨r, hkept, hitem, hencode⟩ := hk.resent e' he' y hy
    have hr : r.origin = n := by simpa [← hitem, CacheRow.item] using horigin
    have := hagree r (hkept.keeps he htakes hr)
    rw [hencode, Except.ok.injEq] at this
    exact this

/-- `hello` with a `retain` byte of 7. -/
def helloKept : List Byte := [0, 0, 0, 1, 0, 0, 0, 2, 0, 3, 0x60, 7, 0x62]

/-- What is relayed of it, and what is sent again. -/
def helloBuf (retain : Byte) : List Byte := [0, 0, 0, 2, 0, 0, 0, 1, 0, 3, 0x60, retain, 0x62, 0]

/-- User 2 is covered: the message is relayed at once, and sent again ten seconds later. -/
theorem helloKept_resent : ∃ e again, e.buf = helloBuf 7 ∧ again.buf = helloBuf 0 ∧
    Run.Reaches (step exactConfig) (fun _ _ => True) (Server.start coverTwo [])
      [(⟨.request helloKept, .calm 0⟩, .ofSent [e]),
        (⟨.pass, .calm 10⟩, helloHanded [((helloHead.cacheRow 0 0).item, again)])]
      (helloRetried coverTwo 1 20 2) := by
  obtain ⟨e, he, h0⟩ : ∃ e, e.buf = helloBuf 7 ∧ step exactConfig (Server.start coverTwo [])
      ⟨.request helloKept, .calm 0⟩ = .ok (helloRetried coverTwo 0 10 1, .ofSent [e]) :=
    ⟨⟨_, helloBuf 7, _, _⟩, rfl, rfl⟩
  obtain ⟨again, hagain, h1⟩ : ∃ again, again.buf = helloBuf 0 ∧
      step exactConfig (helloRetried coverTwo 0 10 1) ⟨.pass, .calm 10⟩ =
        .ok (helloRetried coverTwo 1 20 2,
          helloHanded [((helloHead.cacheRow 0 0).item, again)]) :=
    ⟨⟨_, helloBuf 0, _, _⟩, rfl, rfl⟩
  exact ⟨e, again, he, hagain, .next (.next .start trivial h0) trivial h1⟩

theorem reaches_retransmits_helloKept : ∃ h, (resends h 0).map (·.buf) = [helloBuf 0] ∧
    Retransmits h (helloRetried coverTwo 1 20 2) 0 (helloBuf 7) (helloBuf 0) := by
  obtain ⟨e, again, -, hagain, hr⟩ := helloKept_resent
  have hm : readHead (headOf helloKept) = .ok helloHead := rfl
  obtain ⟨buf, hbuf, hretransmits⟩ := reaches_retransmits hr (n := 0) rfl rfl hm rfl (by decide)
  cases hbuf
  refine ⟨_, ?_, hretransmits⟩
  rw [← hagain]
  rfl

/-- What is sent again differs from what was relayed. -/
theorem helloKept_differs : ¬ ∀ cfg sateCover userInfo h s,
    Run.Reaches (step cfg) (fun _ _ => True) (Server.start sateCover userInfo) h s →
      ∀ n e, h[n]? = some e → ∀ bytes, e.1.input = .request bytes → ∀ m,
        readHead (headOf bytes) = .ok m → m.type = SignalType.completeMessage.code →
          m.text.length ≤ 1011 → ∀ x ∈ resends h n, messageEncode (headOf bytes) = .ok x.buf := by
  intro hall
  obtain ⟨e, again, he, hagain, hr⟩ := helloKept_resent
  have hm : readHead (headOf helloKept) = .ok helloHead := rfl
  have hsame := hall _ _ _ _ _ hr 0 _ rfl _ rfl _ hm rfl (by decide) again
    (List.mem_singleton.2 rfl)
  rw [hagain] at hsame
  revert hsame
  decide

end ShortMessage
