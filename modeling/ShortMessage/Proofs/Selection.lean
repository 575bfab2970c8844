import ShortMessage.Proofs.Routing

/-!
# The entry a message is sent over

`cur_sate_id` is the satellite of the best entry seen, so no entry was usable exactly when it still
is `-1`; and the best entry's beam is in the address map, so looking it up there adds nothing.
-/

namespace ShortMessage

open CMemory FirstMax

variable {fresh : Address} {addresses : Addresses} {userId : BitVec 32} {buf : List Byte}
  {sates : List SateParam} {level : ℤ}

theorem bracket_of_some {beamId : ℤ} {address : Address} (h : addresses beamId = some address) :
    addresses.bracket fresh beamId = (addresses, address) := by
  simp only [Addresses.bracket, h]

theorem sendMessageOver_none
    (hbest : (candidates (Configured addresses) SateParam.snr (-1) sates).argmax SateParam.snr =
      none) :
    sendMessageOver fresh addresses userId buf sates level = (addresses, none) := by
  simp only [sendMessageOver, choose_eq, hbest, Cur.ofBest, Cur.start, ↓reduceIte]

theorem sendMessageOver_some {e : SateParam} (hid : e.sateId ≠ -1) {address : Address}
    (haddress : addresses e.beamId = some address)
    (hbest : (candidates (Configured addresses) SateParam.snr (-1) sates).argmax SateParam.snr =
      some e) :
    sendMessageOver fresh addresses userId buf sates level =
      (addresses, some (⟨userId, e.sateId, e.beamId, level, buf⟩, address)) := by
  simp only [sendMessageOver, choose_eq, hbest, Cur.ofBest, hid, ↓reduceIte,
    bracket_of_some haddress]

/-- What the rest of the development takes `SendMessage` to send is what is handed to the socket. -/
theorem sendMessage_eq_over (hid : ∀ e ∈ sates, e.sateId ≠ -1) :
    sendMessage addresses userId buf sates level =
      (sendMessageOver fresh addresses userId buf sates level).2.map
        fun p => (p.1, some p.2) := by
  rcases hbest : (candidates (Configured addresses) SateParam.snr (-1) sates).argmax
    SateParam.snr with _ | e
  · rw [sendMessageOver_none hbest, sendMessage, choose_eq, hbest]
    rfl
  · have hmem := List.argmax_mem hbest
    simp only [candidates, List.mem_filter, decide_eq_true_eq] at hmem
    obtain ⟨address, haddress⟩ := Option.isSome_iff_exists.1 hmem.2.2
    rw [sendMessageOver_some (hid e hmem.1) haddress hbest, sendMessage, choose_eq, hbest]
    simp only [Cur.ofBest, hid e hmem.1, ↓reduceIte, haddress, Option.map_some]

/-- The message goes over the first best configured entry above the scan's floor, with that entry's
ids and its beam's address, or nowhere when there is none; and the address map stays as it is. -/
theorem sendMessageOver_first_max (hid : ∀ e ∈ sates, 0 ≤ e.sateId) :
    (sendMessageOver fresh addresses userId buf sates level).1 = addresses ∧
      (∀ p, (sendMessageOver fresh addresses userId buf sates level).2 = some p ↔
        ∃ e address, IsFirstMax (Configured addresses) SateParam.snr (-1) sates e ∧
          addresses e.beamId = some address ∧
          p = (⟨userId, e.sateId, e.beamId, level, buf⟩, address)) ∧
      ((sendMessageOver fresh addresses userId buf sates level).2 = none ↔
        ¬ ∃ e ∈ sates, Configured addresses e ∧ -1 < e.snr) := by
  simp only [← argmax_candidates_eq_some_iff]
  rcases hbest : (candidates (Configured addresses) SateParam.snr (-1) sates).argmax
    SateParam.snr with _ | e
  · have hno := argmax_candidates_eq_none_iff.1 hbest
    rw [sendMessageOver_none hbest]
    refine ⟨rfl, by simp, iff_of_true rfl ?_⟩
    rintro ⟨e, he, hu, hsnr⟩
    exact absurd hsnr (not_lt.2 (hno e he hu))
  · have hmax := argmax_candidates_eq_some_iff.1 hbest
    obtain ⟨hsnr, hu⟩ := hmax.candidate
    obtain ⟨address, haddress⟩ := Option.isSome_iff_exists.1 hu
    have hne : e.sateId ≠ -1 := by
      have := hid e hmax.mem
      omega
    rw [sendMessageOver_some hne haddress hbest]
    refine ⟨rfl, fun p => ⟨?_, ?_⟩, iff_of_false (by simp) fun h => h ⟨e, hmax.mem, hu, hsnr⟩⟩
    · intro hp
      cases hp
      exact ⟨e, address, rfl, haddress, rfl⟩
    · rintro ⟨e', address', he, haddress', rfl⟩
      cases he
      rw [haddress] at haddress'
      cases haddress'
      rfl

/-- Beam 3 has no address, beams 1 and 2 are tied: the first of them is taken. -/
theorem sendMessageOver_first_max_tied :
    (sendMessageOver ⟨"", 0⟩ exactConfig.scheduleAddress 1 [] [⟨9, 3, 8⟩, ⟨6, 1, 4⟩, ⟨7, 2, 4⟩]
      5).2 = some (⟨1, 6, 1, 5, []⟩, ⟨"162.105.85.188", 11001⟩) := by
  refine ((sendMessageOver_first_max (by simp)).2.1 _).2 ⟨⟨6, 1, 4⟩, ⟨"162.105.85.188", 11001⟩,
    ⟨[⟨9, 3, 8⟩], [⟨7, 2, 4⟩], rfl, ⟨by decide +kernel, rfl⟩, ?_, ?_⟩, rfl, rfl⟩
  · simp [Configured, exactConfig]
  · simp [Configured]

end ShortMessage
