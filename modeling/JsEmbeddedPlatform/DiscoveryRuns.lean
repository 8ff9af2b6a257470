import JsEmbeddedPlatform.Discovery

/-!
# What is announced

The two bits of the discovery against the datagrams since they were cleared. A step keeps bits,
buffers and datagrams in agreement exactly if it fits; that is carried over all runs.
-/

set_option autoImplicit false

namespace JsEmbeddedPlatform.Discovery

open Bootstrap (bootstrapUriSet endpointSet bootstrapReady maxDiscoveryPacketSize serverUriSize
  scanEndpoint scanUri uriText mask)

/-! ## The bits and the buffers -/

section Told
variable {a a' : Arrays} {since since' : List (List UInt8)} {d tag : List UInt8}

theorem latest_concat (tag : List UInt8) (since : List (List UInt8)) (d : List UInt8) :
    latest tag (since ++ [d]) = if tag.isPrefixOf d then some d else latest tag since := by
  unfold latest
  rw [List.filter_append]
  split
  · next h => rw [List.filter_cons_of_pos h, List.filter_nil, List.getLast?_concat]
  · next h => rw [List.filter_cons_of_neg h, List.filter_nil, List.append_nil]

theorem mask_endpoint (uri endpoint : Bool) :
    mask uri endpoint &&& endpointSet = endpointSet ↔ endpoint = true := by
  cases uri <;> cases endpoint <;> decide

theorem mask_uri (uri endpoint : Bool) :
    mask uri endpoint &&& bootstrapUriSet = bootstrapUriSet ↔ uri = true := by
  cases uri <;> cases endpoint <;> decide

/-- A bit that tells whether the latest datagram has a form, and what holds of its fields then. -/
structure Told {α : Type} (set : Prop) (last : Option (List UInt8)) (form : List UInt8 → α → Prop)
    (holds : α → Prop) : Prop where
  bit : set ↔ ∃ d fields, last = some d ∧ form d fields
  fields : ∀ d fields, last = some d → form d fields → holds fields

section General
variable {α : Type} {set set' : Prop} {last : Option (List UInt8)} {form : List UInt8 → α → Prop}
  {holds : α → Prop}

theorem Told.of_iff (h : Told set last form holds) (hset : set' ↔ set) :
    Told set' last form holds := ⟨hset.trans h.bit, h.fields⟩

/-- After a datagram that is ill-formed the bit must not be set. -/
theorem told_ill (hlast : last = some d) (hill : ∀ fields, ¬ form d fields) :
    Told set last form holds ↔ ¬ set := by
  have hnone : ∀ d' fields, last = some d' → ¬ form d' fields := by
    intro d' fields hd'
    rw [hlast] at hd'
    cases hd'
    exact hill fields
  constructor
  · intro h hset
    obtain ⟨d', fields, hd', hfields⟩ := h.bit.mp hset
    exact hnone d' fields hd' hfields
  · intro hunset
    refine ⟨⟨fun hset => absurd hset hunset, ?_⟩, ?_⟩
    · rintro ⟨d', fields, hd', hfields⟩
      exact absurd hfields (hnone d' fields hd')
    · intro d' fields hd' hfields
      exact absurd hfields (hnone d' fields hd')

/-- After a well-formed one it must be set. -/
theorem told_well {fields : α} (hlast : last = some d) (hform : form d fields)
    (hunique : ∀ fields', form d fields' → fields' = fields) (hset : set) (hholds : holds fields) :
    Told set last form holds := by
  refine ⟨⟨fun _ => ⟨d, fields, hlast, hform⟩, fun _ => hset⟩, ?_⟩
  intro d' fields' hd' hfields'
  rw [hlast] at hd'
  cases hd'
  rw [hunique fields' hfields']
  exact hholds

theorem told_nothing (hunset : ¬ set) : Told set none form holds := by
  refine ⟨⟨fun hset => absurd hset hunset, ?_⟩, ?_⟩
  · rintro ⟨d', fields, hd', _⟩
    cases hd'
  · intro d' fields hd'
    cases hd'

end General

theorem endpointTold_iff : EndpointTold a since ↔
    Told (a.bootstrapReady &&& endpointSet = endpointSet) (latest (CString.ascii "EP:") since)
      EndpointOf (Holds a.endpointBuffer) :=
  ⟨fun h => ⟨h.bit, h.holds⟩, fun h => ⟨h.bit, h.fields⟩⟩

theorem uriTold_iff : UriTold a since ↔
    Told (a.bootstrapReady &&& bootstrapUriSet = bootstrapUriSet)
      (latest (CString.ascii "URI:") since)
      (fun d (fields : List UInt8 × List UInt8) => UriOf d fields.1 fields.2)
      (fun fields => Holds a.serverHostBuffer fields.1 ∧ Holds a.serverPortBuffer fields.2) := by
  have hpair : (∃ d host port, latest (CString.ascii "URI:") since = some d ∧ UriOf d host port) ↔
      ∃ d, ∃ fields : List UInt8 × List UInt8,
        latest (CString.ascii "URI:") since = some d ∧ UriOf d fields.1 fields.2 := by
    simp only [Prod.exists]
  constructor
  · intro h
    exact ⟨h.bit.trans hpair, fun d fields => h.holds d fields.1 fields.2⟩
  · intro h
    exact ⟨h.bit.trans hpair.symm, fun d host port => h.fields d (host, port)⟩

theorem EndpointTold.congr (h : EndpointTold a since)
    (hbit : a'.bootstrapReady &&& endpointSet = endpointSet ↔
      a.bootstrapReady &&& endpointSet = endpointSet)
    (hbuffer : a'.endpointBuffer = a.endpointBuffer)
    (hlatest : latest (CString.ascii "EP:") since' = latest (CString.ascii "EP:") since) :
    EndpointTold a' since' := by
  rw [endpointTold_iff, hlatest, hbuffer]
  exact (endpointTold_iff.mp h).of_iff hbit

theorem UriTold.congr (h : UriTold a since)
    (hbit : a'.bootstrapReady &&& bootstrapUriSet = bootstrapUriSet ↔
      a.bootstrapReady &&& bootstrapUriSet = bootstrapUriSet)
    (hhost : a'.serverHostBuffer = a.serverHostBuffer)
    (hport : a'.serverPortBuffer = a.serverPortBuffer)
    (hlatest : latest (CString.ascii "URI:") since' = latest (CString.ascii "URI:") since) :
    UriTold a' since' := by
  rw [uriTold_iff, hlatest, hhost, hport]
  exact (uriTold_iff.mp h).of_iff hbit

theorem endpointTold_ill (hlatest : latest (CString.ascii "EP:") since = some d)
    (hill : ∀ name, ¬ EndpointOf d name) :
    EndpointTold a since ↔ a.bootstrapReady &&& endpointSet ≠ endpointSet :=
  endpointTold_iff.trans (told_ill hlatest hill)

theorem uriTold_ill (hlatest : latest (CString.ascii "URI:") since = some d)
    (hill : ∀ host port, ¬ UriOf d host port) :
    UriTold a since ↔ a.bootstrapReady &&& bootstrapUriSet ≠ bootstrapUriSet :=
  uriTold_iff.trans (told_ill hlatest fun fields => hill fields.1 fields.2)

theorem endpointTold_well {name : List UInt8}
    (hlatest : latest (CString.ascii "EP:") since = some d) (hname : EndpointOf d name)
    (hset : a.bootstrapReady &&& endpointSet = endpointSet) (hholds : Holds a.endpointBuffer name) :
    EndpointTold a since := by
  refine endpointTold_iff.mpr (told_well hlatest hname ?_ hset hholds)
  intro name' hname'
  exact List.append_cancel_left (hname'.1.symm.trans hname.1)

theorem uriTold_well {host port : List UInt8}
    (hlatest : latest (CString.ascii "URI:") since = some d) (hfields : UriOf d host port)
    (hset : a.bootstrapReady &&& bootstrapUriSet = bootstrapUriSet)
    (hhost : Holds a.serverHostBuffer host) (hport : Holds a.serverPortBuffer port) :
    UriTold a since := by
  refine uriTold_iff.mpr (told_well hlatest (show UriOf d (host, port).1 (host, port).2 from hfields) ?_ hset ⟨hhost, hport⟩)
  intro fields' hfields'
  exact Option.some.inj (hfields'.1.symm.trans hfields.1)

/-- What `%39c` leaves of the text is the name, if that is not cut off. -/
theorem endpoint_taken_iff (htag : (CString.ascii "EP:").isPrefixOf d = true)
    (hlatest : latest (CString.ascii "EP:") since = some d) {uri endpoint : Bool}
    (hbits : a.bootstrapReady = mask uri endpoint) :
    EndpointTold { a.withEndpoint (scanEndpoint (CString.text d)) with buffer := blank } since ↔
      (CString.text d).length ≤ 42 := by
  have hof := endpointOf_iff htag
  cases hscan : scanEndpoint (CString.text d) with
  | none =>
    have hshort : (CString.text d).length ≤ 42 := by
      unfold scanEndpoint at hscan
      split at hscan
      · next hnil =>
        have := List.drop_eq_nil_iff.mp hnil
        omega
      · cases hscan
    have hill : ∀ name, ¬ EndpointOf d name := by
      intro name hname
      rw [hscan] at hof
      cases ((hof name).mp hname).1
    rw [endpointTold_ill hlatest hill]
    simp only [Arrays.withEndpoint, Option.isSome_none, Bool.false_eq_true, if_false, hbits,
      Bootstrap.mask_clearEndpoint]
    rw [Ne, mask_endpoint]
    simp [hshort]
  | some name =>
    have hset : mask uri true &&& endpointSet = endpointSet := (mask_endpoint uri true).mpr rfl
    have hbit : ({ a.withEndpoint (some name) with buffer := blank } : Arrays).bootstrapReady =
        mask uri true := by
      simp only [Arrays.withEndpoint, Option.isSome_some, if_true, hbits,
        Bootstrap.mask_setEndpoint]
    have hnul : 0 ∉ name := by
      intro hmem
      unfold scanEndpoint at hscan
      split at hscan
      · cases hscan
      · cases hscan
        exact CString.nul_notMem_text d (List.mem_of_mem_drop (List.mem_of_mem_take hmem))
    constructor
    · intro h
      obtain ⟨d', name', hd', hname'⟩ := h.bit.mp (by rw [hbit]; exact hset)
      rw [hlatest] at hd'
      cases hd'
      exact ((hof name').mp hname').2
    · intro hle
      apply endpointTold_well hlatest ((hof name).mpr ⟨hscan, hle⟩)
      · rw [hbit]
        exact hset
      · exact holds_filled (length_scanEndpoint hscan) hnul

theorem uri_taken_iff (hlatest : latest (CString.ascii "URI:") since = some d)
    {uri endpoint : Bool} (hbits : a.bootstrapReady = mask uri endpoint) :
    UriTold { a.withUri (scanUri (CString.text d)) with buffer := blank } since ↔
      PortFits (CString.text d) := by
  by_cases hboth : (scanUri (CString.text d)).1 ≠ [] ∧ (scanUri (CString.text d)).2 ≠ []
  · obtain ⟨host, port, hfields, hlt⟩ := fields_of_scanUri hboth
    obtain ⟨hscan, _, _⟩ := scanUri_of_fields hfields hlt
    have hset : mask true endpoint &&& bootstrapUriSet = bootstrapUriSet :=
      (mask_uri true endpoint).mpr rfl
    have hbit : ({ a.withUri (scanUri (CString.text d)) with buffer := blank } :
        Arrays).bootstrapReady = mask true endpoint := by
      simp only [Arrays.withUri, if_pos hboth, hbits, Bootstrap.mask_setUri]
    constructor
    · intro h fields hfields' hlt'
      obtain ⟨d', host', port', hd', hof⟩ := h.bit.mp (by rw [hbit]; exact hset)
      rw [hlatest] at hd'
      cases hd'
      have hsame := hof.1.symm.trans hfields'
      cases hsame
      exact hof.2.2
    · intro hfits
      have hport : port.length < maxPortLength := hfits _ hfields hlt
      have hplain := Bootstrap.scanUri_plain (CString.text d)
      have hwhole : port.take 9 = port := List.take_of_length_le (Nat.le_of_lt_succ hport)
      rw [hscan, hwhole] at hplain
      apply uriTold_well hlatest ⟨hfields, hlt, hport⟩
      · rw [hbit]
        exact hset
      · simp only [Arrays.withUri, hscan]
        exact holds_filled hlt hplain.1
      · simp only [Arrays.withUri, hscan, hwhole]
        exact holds_filled hport hplain.2
  · have hlong : ∀ host port, uriFields (CString.text d) = some (host, port) →
        ¬ host.length < maxHostLength := by
      intro host port hfields hlt
      obtain ⟨hscan, hhost, hport⟩ := scanUri_of_fields hfields hlt
      apply hboth
      rw [hscan]
      refine ⟨hhost, ?_⟩
      intro hnil
      rcases List.take_eq_nil_iff.mp hnil with h9 | h0
      · cases h9
      · exact hport h0
    have hill : ∀ host port, ¬ UriOf d host port :=
      fun host port hof => hlong host port hof.1 hof.2.1
    have hfits : PortFits (CString.text d) :=
      fun fields hfields hlt => absurd hlt (hlong fields.1 fields.2 hfields)
    rw [uriTold_ill hlatest hill]
    simp only [Arrays.withUri, if_neg hboth, hbits, Bootstrap.mask_clearUri]
    rw [Ne, mask_uri]
    simp [hfits]

end Told

/-! ## One step -/

section Steps
variable {s t : State} {a : Arrays} {d : List UInt8}

theorem sized_taken (sized : Sized a) (k : Kind) (text : List UInt8) :
    Sized { a.taken k text with buffer := blank } := by
  obtain ⟨uri, endpoint, hbits⟩ := sized.bits
  cases k with
  | other => exact sized_buffer sized List.length_replicate
  | endpoint =>
    have hlt : ((scanEndpoint text).getD []).length < maxEndpointLength := by
      cases hscan : scanEndpoint text with
      | none => exact Nat.succ_pos _
      | some name => exact length_scanEndpoint hscan
    refine ⟨List.length_replicate, length_filled (Nat.le_of_lt hlt), sized.serverHostBuffer,
      sized.serverPortBuffer, sized.serverUri, sized.endpoint, nul_mem_filled hlt, sized.hostEnds,
      sized.portEnds, uri, (scanEndpoint text).isSome, ?_⟩
    cases hscan : scanEndpoint text with
    | none =>
      simp [Arrays.taken, Arrays.withEndpoint, hscan, hbits, Bootstrap.mask_clearEndpoint]
    | some name =>
      simp [Arrays.taken, Arrays.withEndpoint, hscan, hbits, Bootstrap.mask_setEndpoint]
  | uri =>
    obtain ⟨hhost, hport⟩ := length_scanUri text
    refine ⟨List.length_replicate, sized.endpointBuffer, length_filled (Nat.le_of_lt hhost),
      length_filled (Nat.le_of_lt hport), sized.serverUri, sized.endpoint, sized.endpointEnds,
      nul_mem_filled hhost, nul_mem_filled hport,
      decide ((scanUri text).1 ≠ [] ∧ (scanUri text).2 ≠ []), endpoint, ?_⟩
    simp only [Arrays.taken, Arrays.withUri]
    split
    · next hboth => rw [hbits, Bootstrap.mask_setUri, decide_eq_true hboth]
    · next hboth => rw [hbits, Bootstrap.mask_clearUri, decide_eq_false hboth]

theorem receive_sized (sized : Sized s.arrays) (d : List UInt8) :
    Sized (receive d s).arrays := by
  unfold receive
  rcases takeDatagram_cases sized d with ⟨_, heq⟩ | ⟨_, _, buffer, hbuffer, heq⟩ | ⟨_, _, _, heq⟩ |
    ⟨_, _, text, _, heq⟩
  · rw [heq]
    exact sized
  · rw [heq]
    exact sized_buffer sized hbuffer
  · rw [heq]
    exact sized
  · rw [heq]
    exact sized_taken sized _ text

theorem text_lt_of_nul {array : List UInt8} (h : 0 ∈ array) :
    (CString.text array).length < array.length := by
  obtain ⟨before, rest, rfl⟩ := List.append_of_mem h
  rw [CString.text_append_zero, List.length_append, List.length_cons]
  have := CString.length_text_le before
  omega

/-- The URI is the only text that may not have room. -/
theorem copyAnnounced_cases (sized : Sized a) :
    ((uriText (CString.text a.serverHostBuffer) (CString.text a.serverPortBuffer)).length <
        serverUriSize ∧
      ∃ serverUri endpoint, serverUri.length = serverUriSize ∧
        endpoint.length = maxEndpointLength ∧
        copyAnnounced a = .ok { a with serverUri := serverUri, endpoint := endpoint }) ∨
    (¬ (uriText (CString.text a.serverHostBuffer) (CString.text a.serverPortBuffer)).length <
        serverUriSize ∧ copyAnnounced a = .error (.write .serverUri)) := by
  unfold copyAnnounced
  rw [textAt_of_nul sized.hostEnds, textAt_of_nul sized.portEnds]
  simp only [bind, Except.bind, pure, Except.pure]
  generalize uriText (CString.text a.serverHostBuffer) (CString.text a.serverPortBuffer) = uri
  have hname := text_lt_of_nul sized.endpointEnds
  rw [sized.endpointBuffer] at hname
  by_cases hlt : uri.length < serverUriSize
  · left
    have huri : (uri ++ [0]).length ≤ a.serverUri.length := by
      rw [List.length_append, sized.serverUri]
      exact hlt
    have hend : (CString.text a.endpointBuffer ++ [0]).length ≤ a.endpoint.length := by
      rw [List.length_append, sized.endpoint]
      exact hname
    refine ⟨hlt, (uri ++ [0]) ++ a.serverUri.drop (uri ++ [0]).length,
      (CString.text a.endpointBuffer ++ [0]) ++
        a.endpoint.drop (CString.text a.endpointBuffer ++ [0]).length, ?_, ?_, ?_⟩
    · rw [List.length_append, List.length_drop, ← sized.serverUri]
      omega
    · rw [List.length_append, List.length_drop, ← sized.endpoint]
      omega
    · simp only [put_eq huri, textAt_of_nul sized.endpointEnds, put_eq hend]
  · right
    refine ⟨hlt, ?_⟩
    rw [put_over]
    rw [List.length_append, sized.serverUri, List.length_singleton]
    omega

theorem copy_sized (sized : Sized s.arrays) : Sized (copy s).arrays := by
  unfold copy
  split
  · rcases copyAnnounced_cases sized with ⟨_, serverUri, endpoint, huri, hend, heq⟩ | ⟨_, heq⟩
    · rw [heq]
      exact ⟨sized.buffer, sized.endpointBuffer, sized.serverHostBuffer, sized.serverPortBuffer,
        huri, hend, sized.endpointEnds, sized.hostEnds, sized.portEnds, sized.bits⟩
    · rw [heq]
      exact sized
  · exact sized

theorem clear_sized (sized : Sized s.arrays) : Sized (clear s).arrays :=
  ⟨sized.buffer, sized.endpointBuffer, sized.serverHostBuffer, sized.serverPortBuffer,
    sized.serverUri, sized.endpoint, sized.endpointEnds, sized.hostEnds, sized.portEnds,
    false, false, rfl⟩

/-! ## When a step is faithful -/

theorem tags_differ (hep : (CString.ascii "EP:").isPrefixOf d = true) :
    (CString.ascii "URI:").isPrefixOf d = false := by
  obtain ⟨rest, rfl⟩ := List.isPrefixOf_iff_prefix.mp hep
  rfl

theorem kind_endpoint (h : kind d.length d = .endpoint) :
    (CString.ascii "EP:").isPrefixOf d = true := by
  unfold kind at h
  split at h
  · next hep => exact hep.2
  · split at h <;> cases h

theorem kind_uri (h : kind d.length d = .uri) : (CString.ascii "URI:").isPrefixOf d = true := by
  unfold kind at h
  split at h
  · cases h
  · split at h
    · next huri => exact huri.2
    · cases h

/-- With nothing behind the tag a datagram is not looked at. -/
theorem endpoint_tag_alone (h : kind d.length d = .other)
    (hep : (CString.ascii "EP:").isPrefixOf d = true) : d = CString.ascii "EP:" := by
  obtain ⟨rest, rfl⟩ := List.isPrefixOf_iff_prefix.mp hep
  cases rest with
  | nil => rfl
  | cons c rest =>
    unfold kind at h
    rw [if_pos ⟨by simp [CString.ascii], hep⟩] at h
    cases h

theorem uri_tag_alone (h : kind d.length d = .other)
    (huri : (CString.ascii "URI:").isPrefixOf d = true) : d = CString.ascii "URI:" := by
  have hep : ¬ (3 < d.length ∧ (CString.ascii "EP:").isPrefixOf d = true) := by
    intro hep
    rw [tags_differ hep.2] at huri
    cases huri
  obtain ⟨rest, rfl⟩ := List.isPrefixOf_iff_prefix.mp huri
  cases rest with
  | nil => rfl
  | cons c rest =>
    unfold kind at h
    rw [if_neg hep, if_pos ⟨by simp [CString.ascii], huri⟩] at h
    cases h

theorem not_endpointOf_tag (name : List UInt8) : ¬ EndpointOf (CString.ascii "EP:") name := by
  rintro ⟨htext, hne, _⟩
  have hself : CString.text (CString.ascii "EP:") = CString.ascii "EP:" ++ [] := by decide
  exact hne (List.append_cancel_left (hself.symm.trans htext)).symm

theorem not_uriOf_tag (host port : List UInt8) : ¬ UriOf (CString.ascii "URI:") host port := by
  rintro ⟨hfields, _⟩
  have hself : uriFields (CString.text (CString.ascii "URI:")) = none := by decide
  rw [hself] at hfields
  cases hfields

theorem endpoint_other_iff (h : EndpointTold s.arrays s.since) (hother : kind d.length d = .other)
    (buffer : List UInt8) :
    EndpointTold { s.arrays with buffer := buffer } (s.since ++ [d]) ↔
      (d = CString.ascii "EP:" → s.arrays.bootstrapReady &&& endpointSet ≠ endpointSet) := by
  by_cases hep : (CString.ascii "EP:").isPrefixOf d = true
  · obtain rfl := endpoint_tag_alone hother hep
    have hlatest := (latest_concat (CString.ascii "EP:") s.since (CString.ascii "EP:")).trans
      (if_pos hep)
    rw [endpointTold_ill hlatest not_endpointOf_tag]
    exact ⟨fun hunset _ => hunset, fun hunset => hunset rfl⟩
  · have hlatest := (latest_concat (CString.ascii "EP:") s.since d).trans (if_neg hep)
    refine ⟨?_, fun _ => h.congr Iff.rfl rfl hlatest⟩
    rintro _ rfl
    exact absurd (by decide) hep

theorem uri_other_iff (h : UriTold s.arrays s.since) (hother : kind d.length d = .other)
    (buffer : List UInt8) :
    UriTold { s.arrays with buffer := buffer } (s.since ++ [d]) ↔
      (d = CString.ascii "URI:" →
        s.arrays.bootstrapReady &&& bootstrapUriSet ≠ bootstrapUriSet) := by
  by_cases huri : (CString.ascii "URI:").isPrefixOf d = true
  · obtain rfl := uri_tag_alone hother huri
    have hlatest := (latest_concat (CString.ascii "URI:") s.since (CString.ascii "URI:")).trans
      (if_pos huri)
    rw [uriTold_ill hlatest not_uriOf_tag]
    exact ⟨fun hunset _ => hunset, fun hunset => hunset rfl⟩
  · have hlatest := (latest_concat (CString.ascii "URI:") s.since d).trans (if_neg huri)
    refine ⟨?_, fun _ => h.congr Iff.rfl rfl rfl hlatest⟩
    rintro _ rfl
    exact absurd (by decide) huri

/-- The other bit and its buffers stay. -/
theorem uri_after_endpoint (sized : Sized s.arrays) (h : UriTold s.arrays s.since)
    (hep : (CString.ascii "EP:").isPrefixOf d = true) (scanned : Option (List UInt8)) :
    UriTold { s.arrays.withEndpoint scanned with buffer := blank } (s.since ++ [d]) := by
  obtain ⟨uri, endpoint, hbits⟩ := sized.bits
  have hlatest := (latest_concat (CString.ascii "URI:") s.since d).trans
    (if_neg (by rw [tags_differ hep]; exact Bool.false_ne_true))
  refine UriTold.congr h ?_ rfl rfl hlatest
  simp only [Arrays.withEndpoint, hbits]
  split
  · rw [Bootstrap.mask_setEndpoint, mask_uri, mask_uri]
  · rw [Bootstrap.mask_clearEndpoint, mask_uri, mask_uri]

theorem endpoint_after_uri (sized : Sized s.arrays) (h : EndpointTold s.arrays s.since)
    (huri : (CString.ascii "URI:").isPrefixOf d = true) (fields : List UInt8 × List UInt8) :
    EndpointTold { s.arrays.withUri fields with buffer := blank } (s.since ++ [d]) := by
  obtain ⟨uri, endpoint, hbits⟩ := sized.bits
  have hep : ¬ (CString.ascii "EP:").isPrefixOf d = true := by
    intro hep
    rw [tags_differ hep] at huri
    cases huri
  have hlatest := (latest_concat (CString.ascii "EP:") s.since d).trans (if_neg hep)
  refine EndpointTold.congr h ?_ rfl hlatest
  simp only [Arrays.withUri, hbits]
  split
  · rw [Bootstrap.mask_setUri, mask_endpoint, mask_endpoint]
  · rw [Bootstrap.mask_clearUri, mask_endpoint, mask_endpoint]

/-- What is told of a datagram that is taken and whose text ends with it. -/
theorem told_iff (sized : Sized s.arrays) (h : Faithful s) (hk : kind d.length d ≠ .other) :
    (EndpointTold { s.arrays.taken (kind d.length d) (CString.text d) with buffer := blank }
        (s.since ++ [d]) ∧
      UriTold { s.arrays.taken (kind d.length d) (CString.text d) with buffer := blank }
        (s.since ++ [d])) ↔ WholeFields (CString.text d) (kind d.length d) := by
  obtain ⟨uri, endpoint, hbits⟩ := sized.bits
  cases hkind : kind d.length d with
  | other => exact absurd hkind hk
  | endpoint =>
    have hep := kind_endpoint hkind
    have hlatest := (latest_concat (CString.ascii "EP:") s.since d).trans (if_pos hep)
    have hiff := endpoint_taken_iff hep hlatest hbits
    exact ⟨fun told => hiff.mp told.1,
      fun hle => ⟨hiff.mpr hle, uri_after_endpoint sized h.uri hep _⟩⟩
  | uri =>
    have huri := kind_uri hkind
    have hlatest := (latest_concat (CString.ascii "URI:") s.since d).trans (if_pos huri)
    have hiff := uri_taken_iff hlatest hbits
    exact ⟨fun told => hiff.mp told.2,
      fun hfits => ⟨endpoint_after_uri sized h.endpoint huri _, hiff.mpr hfits⟩⟩

theorem receive_faithful_iff (sized : Sized s.arrays) (h : Faithful s) (d : List UInt8) :
    Faithful (receive d s) ↔ Fits s (.datagram d) := by
  unfold receive Fits
  rcases takeDatagram_cases sized d with ⟨hlong, heq⟩ | ⟨hle, hother, buffer, _, heq⟩ |
    ⟨_, hk, hread, heq⟩ | ⟨hle, hk, text, hread, heq⟩
  · rw [heq]
    refine ⟨fun hf => absurd hf.fault nofun, ?_⟩
    rintro ⟨hle, _⟩
    omega
  · rw [heq]
    simp only [if_pos hother]
    have hep := endpoint_other_iff h.endpoint hother buffer
    have huri := uri_other_iff h.uri hother buffer
    constructor
    · intro hf
      exact ⟨hle, hep.mp hf.endpoint, huri.mp hf.uri⟩
    · rintro ⟨_, hepTag, huriTag⟩
      refine ⟨h.fault, ?_, hep.mpr hepTag, huri.mpr huriTag⟩
      simp [h.strayed]
  · rw [heq]
    simp only [if_neg hk]
    refine ⟨fun hf => absurd hf.fault nofun, ?_⟩
    rintro ⟨_, hends, _⟩
    rw [read_of_ends hends] at hread
    cases hread
  · rw [heq]
    simp only [if_neg hk]
    have htold := told_iff sized h hk
    constructor
    · intro hf
      have hends : Ends d s.arrays.buffer := by
        apply ends_of_read hread
        have hstrayed := hf.strayed
        simp only [Bool.or_eq_false_iff, decide_eq_false_iff_not] at hstrayed
        omega
      rw [read_of_ends hends] at hread
      cases hread
      exact ⟨hle, hends, htold.mp ⟨hf.endpoint, hf.uri⟩⟩
    · rintro ⟨_, hends, hwhole⟩
      rw [read_of_ends hends] at hread
      cases hread
      obtain ⟨hep, huri⟩ := htold.mpr hwhole
      refine ⟨h.fault, ?_, hep, huri⟩
      have := CString.length_text_le d
      simp only [Bool.or_eq_false_iff, decide_eq_false_iff_not]
      exact ⟨h.strayed, by omega⟩

theorem copy_faithful_iff (sized : Sized s.arrays) (h : Faithful s) :
    Faithful (copy s) ↔ Fits s .copy := by
  unfold copy Fits
  split
  · next hready =>
    rcases copyAnnounced_cases sized with ⟨hlt, serverUri, endpoint, _, _, heq⟩ | ⟨hlt, heq⟩
    · rw [heq]
      refine ⟨fun _ _ => hlt, fun _ => ⟨h.fault, h.strayed, ?_, ?_⟩⟩
      · exact h.endpoint.congr Iff.rfl rfl rfl
      · exact h.uri.congr Iff.rfl rfl rfl rfl
    · rw [heq]
      exact ⟨fun hf => absurd hf.fault nofun, fun hfits => absurd (hfits hready) hlt⟩
  · next hready => exact ⟨fun _ hready' => absurd hready' hready, fun _ => h⟩

/-- With no bit set and no datagram since. -/
theorem endpointTold_nothing {since : List (List UInt8)} (hready : a.bootstrapReady = 0)
    (hsince : since = []) : EndpointTold a since := by
  subst hsince
  refine endpointTold_iff.mpr (told_nothing ?_)
  rw [hready]
  decide

theorem uriTold_nothing {since : List (List UInt8)} (hready : a.bootstrapReady = 0)
    (hsince : since = []) : UriTold a since := by
  subst hsince
  refine uriTold_iff.mpr (told_nothing ?_)
  rw [hready]
  decide

theorem clear_faithful (h : Faithful s) : Faithful (clear s) :=
  ⟨h.fault, h.strayed, endpointTold_nothing rfl rfl, uriTold_nothing rfl rfl⟩

theorem step_sized {i : Step} {o : Unit} (sized : Sized s.arrays) (hstep : step s i = some (t, o)) :
    Sized t.arrays := by
  unfold step at hstep
  split at hstep
  · cases i with
    | datagram d =>
      cases hstep
      exact receive_sized sized d
    | copy =>
      simp only at hstep
      split at hstep
      · cases hstep
      · cases hstep
        exact copy_sized sized
    | clear =>
      simp only at hstep
      split at hstep
      · cases hstep
        exact clear_sized sized
      · cases hstep
  · cases hstep

theorem step_faithful_iff {i : Step} {o : Unit} (sized : Sized s.arrays) (h : Faithful s)
    (hstep : step s i = some (t, o)) : Faithful t ↔ Fits s i := by
  unfold step at hstep
  rw [if_pos h.fault] at hstep
  cases i with
  | datagram d =>
    cases hstep
    exact receive_faithful_iff sized h d
  | copy =>
    simp only at hstep
    split at hstep
    · cases hstep
    · cases hstep
      exact copy_faithful_iff sized h
  | clear =>
    simp only at hstep
    split at hstep
    · cases hstep
      exact ⟨fun _ => trivial, fun _ => clear_faithful h⟩
    · cases hstep

end Steps

/-! ## Every run -/

section Whole
variable {buffer serverUri : List UInt8}

theorem start_sized (hbuffer : buffer.length = maxDiscoveryPacketSize)
    (huri : serverUri.length = serverUriSize) : Sized (start buffer serverUri).arrays :=
  ⟨hbuffer, List.length_replicate, List.length_replicate, List.length_replicate, huri, rfl,
    List.mem_replicate.mpr ⟨by decide, rfl⟩, List.mem_replicate.mpr ⟨by decide, rfl⟩,
    List.mem_replicate.mpr ⟨by decide, rfl⟩, false, false, rfl⟩

theorem start_faithful (buffer serverUri : List UInt8) : Faithful (start buffer serverUri) :=
  ⟨rfl, rfl, endpointTold_nothing rfl rfl, uriTold_nothing rfl rfl⟩

/-- Whatever the two uninitialised arrays hold: all along a run no array is left, nothing but the
datagrams is read, and bits and buffers tell what was announced, if every step fits; and not
otherwise. -/
theorem discovery_faithful_iff (hbuffer : buffer.length = maxDiscoveryPacketSize)
    (huri : serverUri.length = serverUriSize) {steps : List Step} {t : State} {outs : List Unit}
    (hrun : Runs.run step (start buffer serverUri) steps = some (t, outs)) :
    Runs.Always Faithful step (start buffer serverUri) steps ↔
      Runs.Along Fits step (start buffer serverUri) steps :=
  Runs.always_iff_along (I := fun s => Sized s.arrays)
    (fun _ _ _ _ sized hstep => step_sized sized hstep)
    (fun _ _ _ _ sized h hstep => step_faithful_iff sized h hstep)
    (start_sized hbuffer huri) (start_faithful buffer serverUri) hrun

/-- What may be on the stack: no NUL in the buffer for datagrams but its last byte. -/
def dirty : List UInt8 := List.replicate 255 0x78 ++ [0]

def noUri : List UInt8 := List.replicate serverUriSize 0x78

/-- The sender of the first datagram sends the NUL of its text too. -/
def announced : List Step :=
  [.datagram (CString.ascii "EP:device" ++ [0]), .datagram (CString.ascii "URI:coap://10.0.0.1:5683"),
    .copy, .clear]

theorem announced_faithful : ∃ t outs,
    Runs.run step (start dirty noUri) announced = some (t, outs) ∧
    Runs.Always Faithful step (start dirty noUri) announced := by
  obtain ⟨t, outs, hrun, _⟩ : ∃ t outs, Runs.run step (start dirty noUri) announced =
      some (t, outs) ∧ decide (CString.text t.arrays.endpoint = CString.ascii "device") = true :=
    Runs.run_evaluated (by decide +kernel)
  exact ⟨t, outs, hrun,
    (discovery_faithful_iff (by decide +kernel) (by decide) hrun).mpr (by decide +kernel)⟩

/-- A host of 39 characters and a port of 9. -/
def longUri : List UInt8 :=
  CString.ascii "URI:coap://" ++ List.replicate 39 0x31 ++ 58 :: List.replicate 9 0x32

/-- A datagram of 257 bytes; a URI with the longest host and port that are accepted; a first
datagram without NUL; a tag alone after a name; a port of ten digits. -/
theorem discovery_unfaithful :
    (∃ t outs, Runs.run step (start blank noUri) [.datagram (List.replicate 257 0x61)] =
      some (t, outs) ∧ decide (t.fault = some (.write .buffer)) = true) ∧
    (∃ t outs, Runs.run step (start blank noUri)
        [.datagram (CString.ascii "EP:a"), .datagram longUri, .copy] = some (t, outs) ∧
      decide (t.fault = some (.write .serverUri)) = true) ∧
    (∃ t outs, Runs.run step (start dirty noUri) [.datagram (CString.ascii "EP:a")] =
      some (t, outs) ∧ decide (t.strayed = true ∧
        CString.text t.arrays.endpointBuffer = 0x61 :: List.replicate 38 0x78) = true) ∧
    (∃ t outs, Runs.run step (start blank noUri)
        [.datagram (CString.ascii "EP:a"), .datagram (CString.ascii "EP:")] = some (t, outs) ∧
      decide (t.arrays.bootstrapReady = endpointSet) = true) ∧
    ¬ Faithful (receive (CString.ascii "EP:") (receive (CString.ascii "EP:a") (start blank noUri))) ∧
    ¬ Faithful (receive (CString.ascii "URI:coap://10.0.0.1:1234567890") (start blank noUri)) := by
  have sized : Sized (start blank noUri).arrays := start_sized List.length_replicate (by decide)
  have first : Faithful (receive (CString.ascii "EP:a") (start blank noUri)) :=
    (receive_faithful_iff sized (start_faithful blank noUri) _).mpr (by decide +kernel)
  refine ⟨Runs.run_evaluated (by decide +kernel), Runs.run_evaluated (by decide +kernel),
    Runs.run_evaluated (by decide +kernel), Runs.run_evaluated (by decide +kernel), ?_, ?_⟩
  · rw [receive_faithful_iff (receive_sized sized _) first]
    decide +kernel
  · rw [receive_faithful_iff sized (start_faithful blank noUri)]
    decide +kernel

end Whole

end JsEmbeddedPlatform.Discovery
