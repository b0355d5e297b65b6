import SealedColumns.Proofs.OpenedModules
import SealedColumns.Proofs.RoundTrip
import SealedColumns.Proofs.WireCanonical

/-!
# What is accepted as a footer

The converse of opening a finished file: whatever bytes a reader is given, if it opens them,
they end with a metadata section in one of a few forms, byte for byte. A section in sealed form
has been sealed under the footer key that the reader found. A section in plain form says that
the file is not encrypted and has nothing behind the metadata, or it is followed by a signature
under the footer key; only a reader without properties, or one that declines the check, takes
anything else in its place.

The reader is not assumed to be given a file that some writer produced, and the cipher is not
assumed to be secure: sealed means sealed under some nonce, by whoever it was.
-/

namespace SealedColumns

theorem ByteSource.get_eq_ok {source : ByteSource} {start length : Nat} {bs : Bytes}
    (h : source.get start length = .ok bs) :
    (source.bytes.drop start).take length = bs ∧ bs.length = length := by
  obtain ⟨kind, bytes⟩ := source
  cases kind with
  | memory =>
      obtain ⟨inside, rfl⟩ := get_memory_eq_ok.mp h
      exact ⟨rfl, length_found_iff.mpr (.inl inside)⟩
  | disk =>
      obtain ⟨_, found, rfl⟩ := get_disk_eq_ok.mp h
      exact ⟨rfl, length_found_iff.mpr found⟩

/-- The last bytes of a file that are understood are the trailer that they are understood as. -/
theorem Trailer.decode_eq_ok {bs : Bytes} {t : Trailer} (sized : bs.length = size)
    (h : decode bs = .ok t) : bs = encode t ∧ t.metadataLength < UInt32.size := by
  have front : (bs.take 4).length = 4 := by
    rw [List.length_take, sized]
    rfl
  have word : Bytes.ofNat 4 (Bytes.toNat (bs.take 4)) = bs.take 4 := by
    have again := Bytes.ofNat_toNat (bs.take 4)
    rwa [front] at again
  have bound : Bytes.toNat (bs.take 4) < UInt32.size := by
    have bound := Bytes.toNat_lt (bs.take 4)
    rwa [front] at bound
  have parts : ∀ mode : FooterMode, bs.drop 4 = mode.magic →
      bs = encode ⟨Bytes.toNat (bs.take 4), mode⟩ := by
    intro mode magic
    rw [encode]
    dsimp only
    rw [word, ← magic, List.take_append_drop]
  rw [decode] at h
  split at h
  · next magic =>
      cases h
      exact ⟨parts .encrypted magic, bound⟩
  · split at h
    · next magic =>
        cases h
        exact ⟨parts .plaintext magic, bound⟩
    · cases h

namespace Opening

variable {s t : ReadState} {info : FileInfo}

/-! ### Finding the section -/

/-- A file whose last bytes are a trailer, with the section of the announced
length in front of it. -/
theorem split_at_section {file : Bytes} {t : Trailer}
    (long : Trailer.size + t.metadataLength ≤ file.length)
    (ends : file.drop (file.length - Trailer.size) = t.encode) {metadataSection : Bytes}
    (found : metadataSection =
      (file.drop (file.length - (Trailer.size + t.metadataLength))).take t.metadataLength) :
    metadataSection.length = t.metadataLength ∧
      file = file.take (file.length - (Trailer.size + t.metadataLength)) ++
        (metadataSection ++ Trailer.encode ⟨metadataSection.length, t.mode⟩) := by
  have length : metadataSection.length = t.metadataLength := by
    rw [found, List.length_take, List.length_drop]
    omega
  have after : file.length - (Trailer.size + t.metadataLength) + t.metadataLength =
      file.length - Trailer.size := by omega
  refine ⟨length, ?_⟩
  have tail := List.take_append_drop t.metadataLength
    (file.drop (file.length - (Trailer.size + t.metadataLength)))
  rw [List.drop_drop, after, ends, ← found] at tail
  rw [length, tail, List.take_append_drop]

/-- The window that is read is the end of the file, and the trailer in it is that of the file. -/
theorem readWindow_eq_ok {properties : ReaderProperties} {source : ByteSource} {window : Window}
    (h : readWindow properties source s = (.ok window, t)) :
    window.bytes = source.bytes.drop (source.bytes.length - window.bytes.length) ∧
      source.bytes.drop (source.bytes.length - Trailer.size) = window.trailer.encode ∧
      window.trailer.metadataLength < UInt32.size ∧ t.footerKey = s.footerKey := by
  rw [readWindow] at h
  dsimp only at h
  obtain ⟨large, sized⟩ := Operation.guard_eq_ok.mp h
  rw [ByteSource.size] at large sized
  generalize hwidth : min source.bytes.length (max properties.footerReadSize Trailer.size) = width
    at sized
  obtain ⟨skip, hskip, afterSkip⟩ := Operation.lift_bind_eq_ok.mp sized
  obtain ⟨bytes, s₁, reading, afterWindow⟩ := Operation.bind_eq_ok.mp afterSkip
  obtain ⟨place, hplace, afterPlace⟩ := Operation.lift_bind_eq_ok.mp afterWindow
  obtain ⟨last, hlast, afterLast⟩ := Operation.lift_bind_eq_ok.mp afterPlace
  obtain ⟨trailer, decoded, done⟩ := Operation.lift_bind_eq_ok.mp afterLast
  obtain ⟨rfl, rfl⟩ := Operation.pure_eq_ok.mp done
  obtain ⟨got, kept⟩ := Session.note_bind_eq_ok reading
  obtain ⟨hbytes, wide⟩ := ByteSource.get_eq_ok got
  obtain ⟨within, rfl⟩ := subSizes_eq_ok hskip
  obtain ⟨enough, rfl⟩ := subSizes_eq_ok hplace
  obtain ⟨_, hend⟩ := Bytes.sliceFrom_eq_ok hlast
  have behind : bytes = source.bytes.drop (source.bytes.length - bytes.length) := by
    rw [wide, ← hbytes]
    apply List.take_of_length_le
    rw [List.length_drop]
    omega
  have long : last.length = Trailer.size := by
    rw [← hend, List.length_drop]
    omega
  obtain ⟨encoded, bound⟩ := Trailer.decode_eq_ok long decoded
  refine ⟨behind, ?_, bound, kept⟩
  show source.bytes.drop (source.bytes.length - Trailer.size) = trailer.encode
  rw [← encoded, ← hend, behind, List.drop_drop, List.length_drop]
  congr 1
  omega

/-- The section that is read is the part of the file in front of the trailer. -/
theorem readSection_eq_ok {source : ByteSource} {window : Window} {metadataSection : Bytes}
    (behind : window.bytes = source.bytes.drop (source.bytes.length - window.bytes.length))
    (h : readSection source window s = (.ok metadataSection, t)) :
    Trailer.size + window.trailer.metadataLength ≤ source.bytes.length ∧
      metadataSection = (source.bytes.drop
        (source.bytes.length - (Trailer.size + window.trailer.metadataLength))).take
          window.trailer.metadataLength ∧ t.footerKey = s.footerKey := by
  rw [readSection] at h
  dsimp only at h
  obtain ⟨footerSize, hfooter, afterSize⟩ := Operation.lift_bind_eq_ok.mp h
  obtain rfl := addSizes_eq_ok hfooter
  obtain ⟨fits, choosing⟩ := Operation.guard_eq_ok.mp afterSize
  refine ⟨Nat.le_of_not_lt fits, ?_⟩
  split at choosing
  · -- The section is not in the window, and is read anew.
    obtain ⟨start, hstart, reading⟩ := Operation.lift_bind_eq_ok.mp choosing
    obtain ⟨got, kept⟩ := Session.note_bind_eq_ok reading
    obtain ⟨rfl, _⟩ := ByteSource.get_eq_ok got
    obtain ⟨_, rfl⟩ := subSizes_eq_ok hstart
    exact ⟨rfl, kept⟩
  · next inside =>
    obtain ⟨start, hstart, afterStart⟩ := Operation.lift_bind_eq_ok.mp choosing
    obtain ⟨stop, hstop, cut⟩ := Operation.lift_bind_eq_ok.mp afterStart
    obtain ⟨got, rfl⟩ := Operation.lift_eq_ok.mp cut
    obtain ⟨_, rfl⟩ := subSizes_eq_ok hstart
    obtain ⟨_, rfl⟩ := subSizes_eq_ok hstop
    obtain ⟨_, _, rfl⟩ := Bytes.slice_eq_ok got
    refine ⟨?_, rfl⟩
    -- Positions in the window are positions in the file, both counted from the end.
    have size := congrArg List.length behind
    rw [List.length_drop] at size
    generalize window.bytes.length = width at behind inside size ⊢
    rw [behind, List.drop_drop]
    congr 1
    · omega
    · congr 1
      omega

/-- A footer that is read is the section in front of the trailer, as long as the trailer says. -/
theorem readFooter_eq_ok {properties : ReaderProperties} {source : ByteSource}
    (h : readFooter properties source s = (.ok info, t)) :
    ∃ (front metadataSection : Bytes) (mode : FooterMode) (u : ReadState),
      source.bytes =
        front ++ (metadataSection ++ Trailer.encode ⟨metadataSection.length, mode⟩) ∧
      metadataSection.length < UInt32.size ∧ u.footerKey = s.footerKey ∧
      (match mode with
        | .plaintext => plaintextSection properties.decryption metadataSection
        | .encrypted => encryptedSection properties.decryption metadataSection) u =
          (.ok info, t) := by
  rw [readFooter] at h
  obtain ⟨window, s₁, windowed, detected⟩ := Operation.bind_eq_ok.mp h
  rw [readDetected] at detected
  obtain ⟨metadataSection, u, found, understood⟩ := Operation.bind_eq_ok.mp detected
  obtain ⟨behind, ends, bound, kept⟩ := readWindow_eq_ok windowed
  obtain ⟨fits, hsection, sameKey⟩ := readSection_eq_ok behind found
  obtain ⟨length, whole⟩ := split_at_section fits ends hsection
  refine ⟨_, metadataSection, window.trailer.mode, u, whole, length ▸ bound, sameKey.trans kept, ?_⟩
  cases hmode : window.trailer.mode with
  | plaintext =>
      rw [hmode] at understood
      exact understood
  | encrypted =>
      rw [hmode] at understood
      exact understood

/-! ### What the reader arrives at -/

/-- The prefix of the associated data of a file: the one that the file stores, if the reader
supplies no other and its verifier does not object; else the one that the reader supplies; else
none, unless the file asks for one. -/
inductive ReconciledPrefix (stored : AadParameters) (r : DecryptionProperties) : Bytes → Prop where
  | stored {aadPrefix : Bytes} (present : stored.aadPrefix = some aadPrefix)
      (agreed : ∀ supplied ∈ r.aadPrefix, supplied = aadPrefix)
      (verified : ∀ verifier ∈ r.aadPrefixVerifier, verifier aadPrefix = .ok ()) :
      ReconciledPrefix stored r aadPrefix
  | supplied {aadPrefix : Bytes} (absent : stored.aadPrefix = none)
      (brought : r.aadPrefix = some aadPrefix) : ReconciledPrefix stored r aadPrefix
  | empty (absent : stored.aadPrefix = none) (missing : r.aadPrefix = none)
      (optional : stored.supplyAadPrefix ≠ some true) : ReconciledPrefix stored r []

/-- The decryption that a reader arrives at from the description of an encryption. -/
structure Resolves (r : DecryptionProperties) (description : EncryptionAlgorithm)
    (keyMetadata : Option Bytes) (d : FileDecryption) : Prop where
  properties : d.properties = r
  algorithm : d.algorithm = description.algorithm
  footerKeyMetadata : d.footerKeyMetadata = keyMetadata
  fileAad : ∃ aadPrefix fileUnique, ReconciledPrefix description.parameters r aadPrefix ∧
    description.parameters.fileUnique = some fileUnique ∧ d.fileAad = aadPrefix ++ fileUnique

theorem reconcilePrefix_eq_ok {stored : AadParameters} {r : DecryptionProperties}
    {aadPrefix : Bytes} (h : reconcilePrefix stored r s = (.ok aadPrefix, t)) :
    ReconciledPrefix stored r aadPrefix ∧ t.footerKey = s.footerKey := by
  rw [reconcilePrefix] at h
  cases hstored : stored.aadPrefix with
  | some own =>
      rw [hstored] at h
      dsimp only at h
      obtain ⟨unlike, verifying⟩ := Operation.guard_eq_ok.mp h
      have agreed : ∀ supplied ∈ r.aadPrefix, supplied = own := by
        intro supplied brought
        rw [Option.mem_def] at brought
        rw [brought, Option.any_some, decide_eq_true_eq] at unlike
        exact Decidable.not_not.mp unlike
      cases hverifier : r.aadPrefixVerifier with
      | none =>
          rw [hverifier] at verifying
          obtain ⟨rfl, rfl⟩ := Operation.pure_eq_ok.mp verifying
          refine ⟨.stored hstored agreed ?_, rfl⟩
          rw [hverifier]
          rintro _ ⟨⟩
      | some verifier =>
          rw [hverifier] at verifying
          obtain ⟨_, u, asked, done⟩ := Operation.bind_eq_ok.mp verifying
          obtain ⟨rfl, rfl⟩ := Operation.pure_eq_ok.mp done
          obtain ⟨answer, kept⟩ := Session.note_bind_eq_ok asked
          refine ⟨.stored hstored agreed ?_, kept⟩
          rw [hverifier]
          rintro _ ⟨⟩
          exact answer
  | none =>
      rw [hstored] at h
      cases hsupplied : r.aadPrefix with
      | some brought =>
          rw [hsupplied] at h
          obtain ⟨rfl, rfl⟩ := Operation.pure_eq_ok.mp h
          exact ⟨.supplied hstored hsupplied, rfl⟩
      | none =>
          rw [hsupplied] at h
          obtain ⟨optional, done⟩ := Operation.guard_eq_ok.mp h
          obtain ⟨rfl, rfl⟩ := Operation.pure_eq_ok.mp done
          refine ⟨.empty hstored hsupplied ?_, rfl⟩
          intro asked
          rw [asked] at optional
          exact optional rfl

theorem fileDecryption_eq_ok {description : EncryptionAlgorithm} {keyMetadata : Option Bytes}
    {r : DecryptionProperties} {d : FileDecryption}
    (h : fileDecryption description keyMetadata r s = (.ok d, t)) :
    Resolves r description keyMetadata d ∧ t.footerKey = s.footerKey := by
  rw [fileDecryption] at h
  cases hunique : description.parameters.fileUnique with
  | none =>
      rw [hunique] at h
      cases h
  | some fileUnique =>
      rw [hunique] at h
      obtain ⟨aadPrefix, u, reconciled, done⟩ := Operation.bind_eq_ok.mp h
      obtain ⟨rfl, rfl⟩ := Operation.pure_eq_ok.mp done
      obtain ⟨prefixed, kept⟩ := reconcilePrefix_eq_ok reconciled
      exact ⟨⟨rfl, rfl, rfl, aadPrefix, fileUnique, prefixed, hunique, rfl⟩, kept⟩

/-! ### The forms of the section -/

/-- The key that a reader finds for the footer of a file. -/
abbrev FindsFooterKey (d : FileDecryption) (key : Key) : Prop :=
  d.properties.Finds d.properties.footerKey d.footerKeyMetadata key

/-- The forms in which a reader with given properties accepts a metadata section, each with the
metadata it takes from the section and with what it decrypts the modules of the file by. -/
inductive AcceptedSection (m : FileMetaData) :
    Option DecryptionProperties → FooterMode → Bytes → Option FileDecryption → Prop where
  /-- The description of the encryption, and a module that holds the metadata at its front. -/
  | inSealedForm {r : DecryptionProperties} {crypto : FileCryptoMetaData} {d : FileDecryption}
      {key : Key} {nonce more sealedFooter : Bytes}
      (resolved : Resolves r crypto.encryptionAlgorithm crypto.keyMetadata d)
      (finds : FindsFooterKey d key) (length : nonce.length = nonceLength)
      (sealing : (key.engine .gcm .metadata).encryptWithNonce (Wire.encode m ++ more) key.bytes
        (d.fileAad ++ [ModuleKind.footer.code]) nonce = .ok sealedFooter) :
      AcceptedSection m (some r) .encrypted (Wire.encode crypto ++ sealedFooter) (some d)
  /-- The metadata of a file without encryption, and nothing else. -/
  | plain {decryption : Option DecryptionProperties} (absent : m.encryptionAlgorithm = none) :
      AcceptedSection m decryption .plaintext (Wire.encode m) none
  /-- The metadata, and a nonce with the tag that it gives for the metadata. -/
  | verified {r : DecryptionProperties} {description : EncryptionAlgorithm} {d : FileDecryption}
      {key : Key} {nonce : Bytes} (described : m.encryptionAlgorithm = some description)
      (checked : r.checkFooterSignature = true)
      (resolved : Resolves r description m.footerSigningKeyMetadata d)
      (finds : FindsFooterKey d key) (length : nonce.length = nonceLength) :
      AcceptedSection m (some r) .plaintext (Wire.encode m ++ (nonce ++
        (Gcm.encrypt (Aes.cipher key.bytes) nonce (d.fileAad ++ [ModuleKind.footer.code])
          (Wire.encode m)).2)) (some d)
  /-- The metadata, and anything in place of the signature, which the reader declines to verify. -/
  | declined {r : DecryptionProperties} {description : EncryptionAlgorithm} {d : FileDecryption}
      {more : Bytes} (described : m.encryptionAlgorithm = some description)
      (unchecked : r.checkFooterSignature = false)
      (resolved : Resolves r description m.footerSigningKeyMetadata d) :
      AcceptedSection m (some r) .plaintext (Wire.encode m ++ more) (some d)
  /-- The metadata, and anything in place of the signature, which the reader has no key for. -/
  | withoutKeys {description : EncryptionAlgorithm} {more : Bytes}
      (described : m.encryptionAlgorithm = some description) :
      AcceptedSection m none .plaintext (Wire.encode m ++ more) none

/-- The last bytes of a sealed footer are its tag. -/
theorem tag_of_encryptForSignature {engine : Engine} {footer key aad nonce sealedFooter : Bytes}
    (h : engine.encryptForSignature footer key aad nonce = .ok sealedFooter) :
    nonce.length = nonceLength ∧ sealedFooter.drop (sealedFooter.length - tagLength) =
      (Gcm.encrypt (Aes.cipher key) nonce aad footer).2 := by
  rw [Engine.encryptForSignature] at h
  obtain ⟨gcm, afterMode⟩ := Except.guard_eq_ok.mp h
  obtain ⟨length, sealing⟩ := Except.guard_eq_ok.mp afterMode
  obtain ⟨_, _, rfl⟩ := Engine.encryptWithNonce_eq_ok.mp sealing
  refine ⟨Decidable.not_not.mp length, ?_⟩
  rw [Decidable.not_not.mp gcm, Engine.body]
  dsimp only
  have last : (Gcm.encrypt (Aes.cipher key) nonce aad footer).2.length = tagLength := rfl
  rw [← List.append_assoc, ← List.append_assoc]
  apply List.drop_left'
  simp only [List.length_append, last]
  omega

theorem verifySignature_eq_ok {d : FileDecryption} {footer signature : Bytes} {u : Unit}
    (fresh : s.footerKey = none) (h : verifySignature d footer signature s = (.ok u, t)) :
    ∃ key nonce, FindsFooterKey d key ∧ nonce.length = nonceLength ∧
      signature = nonce ++ (Gcm.encrypt (Aes.cipher key.bytes) nonce
        (d.fileAad ++ [ModuleKind.footer.code]) footer).2 := by
  rw [verifySignature] at h
  obtain ⟨key, s₁, finding, afterKey⟩ := Operation.bind_eq_ok.mp h
  obtain ⟨aad, haad, afterAad⟩ := Operation.lift_bind_eq_ok.mp afterKey
  obtain ⟨⟨nonce, tag⟩, parts, afterParts⟩ := Operation.lift_bind_eq_ok.mp afterAad
  obtain ⟨sealedFooter, sealing, afterSealing⟩ := Operation.lift_bind_eq_ok.mp afterParts
  obtain ⟨_, afterLength⟩ := Operation.guard_eq_ok.mp afterSealing
  obtain ⟨start, hstart, afterStart⟩ := Operation.lift_bind_eq_ok.mp afterLength
  obtain ⟨expected, hexpected, comparing⟩ := Operation.lift_bind_eq_ok.mp afterStart
  have same : tag = expected := by
    by_contra differ
    rw [if_pos differ] at comparing
    cases comparing
  obtain rfl := Except.ok.inj haad
  obtain ⟨_, rfl⟩ := Bytes.cut_eq_ok parts
  obtain ⟨_, rfl⟩ := subSizes_eq_ok hstart
  obtain ⟨_, rfl⟩ := Bytes.sliceFrom_eq_ok hexpected
  obtain ⟨length, last⟩ := tag_of_encryptForSignature sealing
  refine ⟨key, nonce, FileDecryption.finds_of_footerKey fresh finding, length, ?_⟩
  rw [same, last]

/-- A section in plain form that is taken over is in one of the accepted forms. -/
theorem plaintextSection_eq_ok {decryption : Option DecryptionProperties} {bs : Bytes}
    (fresh : s.footerKey = none) (h : plaintextSection decryption bs s = (.ok info, t)) :
    ∃ m d, AcceptedSection m decryption .plaintext bs d ∧ fileInfo m d = .ok info := by
  obtain ⟨⟨m, consumed⟩, decoded, understood⟩ := Operation.lift_bind_eq_ok.mp h
  obtain ⟨rfl, more, rfl⟩ := decodePart_eq_ok decoded
  dsimp only at understood
  cases hdescription : m.encryptionAlgorithm with
  | none =>
      rw [hdescription] at understood
      dsimp only at understood
      split at understood
      · obtain ⟨_, _, failing⟩ := Operation.lift_bind_eq_ok.mp understood
        cases failing
      · next whole =>
          have none_left : more = [] := by
            rw [List.length_append] at whole
            exact List.eq_nil_of_length_eq_zero (by omega)
          subst none_left
          rw [List.append_nil]
          exact ⟨m, none, .plain hdescription, (Operation.lift_eq_ok.mp understood).1⟩
  | some description =>
      rw [hdescription] at understood
      cases decryption with
      | none => exact ⟨m, none, .withoutKeys hdescription, (Operation.lift_eq_ok.mp understood).1⟩
      | some r =>
          obtain ⟨d, s₁, resolving, afterResolving⟩ := Operation.bind_eq_ok.mp understood
          obtain ⟨resolved, kept⟩ := fileDecryption_eq_ok resolving
          split at afterResolving
          · next checked =>
              obtain ⟨signature, hsignature, afterSignature⟩ :=
                Operation.lift_bind_eq_ok.mp afterResolving
              obtain ⟨_, slicing⟩ := Operation.guard_eq_ok.mp afterSignature
              obtain ⟨footer, hfooter, verifying⟩ := Operation.lift_bind_eq_ok.mp slicing
              obtain ⟨_, s₂, verified, done⟩ := Operation.bind_eq_ok.mp verifying
              obtain ⟨_, rfl⟩ := Bytes.sliceFrom_eq_ok hsignature
              obtain ⟨_, _, rfl⟩ := Bytes.slice_eq_ok hfooter
              rw [List.drop_zero, Nat.sub_zero, List.take_left, List.drop_left] at verified
              obtain ⟨key, nonce, finds, length, rfl⟩ :=
                verifySignature_eq_ok (kept.trans fresh) verified
              exact ⟨m, some d, .verified hdescription checked resolved finds length,
                (Operation.lift_eq_ok.mp done).1⟩
          · next unchecked =>
              exact ⟨m, some d, .declined hdescription (Bool.eq_false_iff.mpr unchecked) resolved,
                (Operation.lift_eq_ok.mp afterResolving).1⟩

/-- A sealed section that is opened is in the accepted form. -/
theorem encryptedSection_eq_ok {decryption : Option DecryptionProperties} {bs : Bytes}
    (fresh : s.footerKey = none) (h : encryptedSection decryption bs s = (.ok info, t)) :
    ∃ m d, AcceptedSection m decryption .encrypted bs d ∧ fileInfo m d = .ok info := by
  unfold encryptedSection at h
  cases decryption with
  | none => cases h
  | some r =>
      obtain ⟨⟨crypto, consumed⟩, decoded, afterCrypto⟩ := Operation.lift_bind_eq_ok.mp h
      obtain ⟨d, s₁, resolving, afterResolving⟩ := Operation.bind_eq_ok.mp afterCrypto
      obtain ⟨opener, s₂, entering, afterKey⟩ := Operation.bind_eq_ok.mp afterResolving
      obtain ⟨key, _, finding, making⟩ := Operation.bind_eq_ok.mp entering
      obtain ⟨rfl, _⟩ := FileDecryption.opener_eq_ok making
      obtain ⟨aad, haad, afterAad⟩ := Operation.lift_bind_eq_ok.mp afterKey
      obtain ⟨input, hinput, afterInput⟩ := Operation.lift_bind_eq_ok.mp afterAad
      obtain ⟨⟨plain, rest⟩, s₃, reading, afterReading⟩ := Operation.bind_eq_ok.mp afterInput
      obtain ⟨whole, decoding⟩ := Operation.guard_eq_ok.mp afterReading
      obtain ⟨⟨m, more⟩, understood, done⟩ := Operation.lift_bind_eq_ok.mp decoding
      obtain ⟨rfl, stored, rfl⟩ := decodePart_eq_ok decoded
      obtain ⟨resolved, kept⟩ := fileDecryption_eq_ok resolving
      obtain rfl := Except.ok.inj haad
      obtain ⟨_, rfl⟩ := Bytes.sliceFrom_eq_ok hinput
      obtain ⟨opened, _⟩ := Operation.lift_eq_ok.mp (Operation.adapt_eq_ok.mp reading)
      obtain ⟨sealedFooter, opening, hstored⟩ := readSealed_eq_ok opened
      have opening : (key.engine d.algorithm .metadata).decrypt sealedFooter key.bytes
          (d.fileAad ++ [ModuleKind.footer.code]) = .ok plain := opening
      obtain ⟨nonce, length, sealing⟩ := Engine.encryptWithNonce_of_decrypt opening
      obtain rfl := decodeFront_eq_ok understood
      have none_left : rest = [] := by simpa using whole
      rw [List.drop_left, none_left, List.append_nil] at hstored
      subst hstored
      rw [engine_metadata, ← engine_metadata key .gcm] at sealing
      have finds := FileDecryption.finds_of_footerKey (kept.trans fresh) finding
      exact ⟨m, some d, .inSealedForm resolved finds length sealing,
        (Operation.lift_eq_ok.mp done).1⟩

/-! ### There is one way to understand a section -/

section

variable {r : DecryptionProperties} {description : EncryptionAlgorithm}
variable {keyMetadata : Option Bytes}

theorem ReconciledPrefix.unique {stored : AadParameters} {aadPrefix aadPrefix' : Bytes}
    (h : ReconciledPrefix stored r aadPrefix) (h' : ReconciledPrefix stored r aadPrefix') :
    aadPrefix = aadPrefix' := by
  cases h with
  | stored present =>
      cases h' with
      | stored present' => exact Option.some.inj (present.symm.trans present')
      | supplied absent => cases present.symm.trans absent
      | empty absent => cases present.symm.trans absent
  | supplied absent brought =>
      cases h' with
      | stored present => cases present.symm.trans absent
      | supplied _ brought' => exact Option.some.inj (brought.symm.trans brought')
      | empty _ missing => cases brought.symm.trans missing
  | empty absent missing =>
      cases h' with
      | stored present => cases present.symm.trans absent
      | supplied _ brought => cases brought.symm.trans missing
      | empty => rfl

theorem Resolves.unique {d d' : FileDecryption} (h : Resolves r description keyMetadata d)
    (h' : Resolves r description keyMetadata d') : d = d' := by
  obtain ⟨aadPrefix, fileUnique, reconciled, present, hfile⟩ := h.fileAad
  obtain ⟨aadPrefix', fileUnique', reconciled', present', hfile'⟩ := h'.fileAad
  obtain rfl := reconciled.unique reconciled'
  obtain rfl := Option.some.inj (present.symm.trans present')
  have sameAad : d.fileAad = d'.fileAad := hfile.trans hfile'.symm
  have sameProperties : d.properties = d'.properties := h.properties.trans h'.properties.symm
  have sameAlgorithm : d.algorithm = d'.algorithm := h.algorithm.trans h'.algorithm.symm
  have sameMetadata : d.footerKeyMetadata = d'.footerKeyMetadata :=
    h.footerKeyMetadata.trans h'.footerKeyMetadata.symm
  cases d
  cases d'
  simp only [FileDecryption.mk.injEq]
  exact ⟨sameProperties, sameAlgorithm, sameAad, sameMetadata⟩

/-- A reader does not find two keys in one place. -/
theorem finds_unique {explicit : Option Key} {key key' : Key}
    (h : r.Finds explicit keyMetadata key) (h' : r.Finds explicit keyMetadata key') :
    key = key' := by
  cases h with
  | brought brought =>
      cases h' with
      | brought brought' => exact Option.some.inj (brought.symm.trans brought')
      | retrieved absent => cases brought.symm.trans absent
  | retrieved absent present metadata answer =>
      cases h' with
      | brought brought => cases brought.symm.trans absent
      | retrieved _ present' metadata' answer' =>
          obtain rfl := Option.some.inj (present.symm.trans present')
          obtain rfl := Option.some.inj (metadata.symm.trans metadata')
          have bytes := Except.ok.inj (answer.symm.trans answer')
          cases key
          cases key'
          cases bytes
          rfl

end

/-- Two values whose wire forms start the same byte string are the same. -/
theorem eq_of_encode_append {α : Type} [Wire α] [LawfulWire α] {a a' : α} {more more' : Bytes}
    (short : (Wire.encode a ++ more).length < UInt32.size)
    (same : Wire.encode a ++ more = Wire.encode a' ++ more') : a = a' ∧ more = more' := by
  have front : (Wire.encode a).length < UInt32.size := by
    rw [List.length_append] at short
    omega
  have front' : (Wire.encode a').length < UInt32.size := by
    rw [same, List.length_append] at short
    omega
  have decoded := decodeFront_encode (fits_of_short front) more
  rw [same, decodeFront_encode (fits_of_short front')] at decoded
  cases decoded
  exact ⟨rfl, rfl⟩

variable {m m' : FileMetaData} {decryption : Option DecryptionProperties} {mode : FooterMode}
variable {metadataSection : Bytes} {d d' : Option FileDecryption}

/-- A section in plain form starts with the metadata. -/
theorem AcceptedSection.starts (h : AcceptedSection m decryption .plaintext metadataSection d) :
    ∃ more, metadataSection = Wire.encode m ++ more := by
  cases h with
  | plain => exact ⟨[], (List.append_nil _).symm⟩
  | verified => exact ⟨_, rfl⟩
  | declined => exact ⟨_, rfl⟩
  | withoutKeys => exact ⟨_, rfl⟩

/-- A section is accepted for one metadata only. -/
theorem AcceptedSection.unique (short : metadataSection.length < UInt32.size)
    (h : AcceptedSection m decryption mode metadataSection d)
    (h' : AcceptedSection m' decryption mode metadataSection d') : m = m' := by
  cases mode with
  | plaintext =>
      obtain ⟨more, rfl⟩ := h.starts
      obtain ⟨more', same⟩ := h'.starts
      exact (eq_of_encode_append short same).1
  | encrypted =>
      generalize hsection : metadataSection = bs at h'
      cases h with
      | inSealedForm resolved finds length sealing =>
          cases h' with
          | inSealedForm resolved' finds' length' sealing' =>
              obtain ⟨rfl, rfl⟩ := eq_of_encode_append short hsection
              obtain rfl := resolved.unique resolved'
              obtain rfl := finds_unique finds finds'
              have opened := Engine.decrypt_of_encryptWithNonce length sealing
              rw [Engine.decrypt_of_encryptWithNonce length' sealing'] at opened
              obtain ⟨_, size, _⟩ := Engine.encryptWithNonce_eq_ok.mp sealing
              exact (eq_of_encode_append (by omega) (Except.ok.inj opened).symm).1

/-! ### Taking over the metadata -/

/-- What has to hold of the metadata of a file for a reader to take it over, and what the reader
then knows of the file. -/
structure TakenOver (m : FileMetaData) (d : Option FileDecryption) (info : FileInfo) : Prop where
  named : ∀ e ∈ m.schema, e.path ≠ []
  distinct : (m.schema.map SchemaElement.path).Nodup
  schema : info.schema = ⟨m.schemaName, m.schema.map fun e => ⟨⟨e.path⟩, e.type⟩⟩
  version : info.version = m.version
  numRows : info.numRows = m.numRows
  createdBy : info.createdBy = m.createdBy
  numRowGroups : info.numRowGroups = m.rowGroups.length
  /-- A row group has one chunk for every column, and an ordinal, or else a
  position that can be one. -/
  rowGroup : ∀ i g, m.rowGroups[i]? = some g → g.columns.length = m.schema.length ∧
    ∃ ordinal, (g.ordinal <|> int16? i) = some ordinal ∧ info.rowGroups[i]? =
      some ⟨g.columns, g.numRows, g.totalByteSize, g.fileOffset, ordinal⟩
  decryption : info.decryption = d

theorem rowGroupInfos_eq_ok {numColumns i : Nat} {acc infos : Array RowGroupInfo}
    {groups : List RowGroup} (h : rowGroupInfos numColumns i acc groups = .ok infos) :
    ∃ taken : List RowGroupInfo, infos.toList = acc.toList ++ taken ∧
      taken.length = groups.length ∧ ∀ k g, groups[k]? = some g → g.columns.length = numColumns ∧
        ∃ ordinal, (g.ordinal <|> int16? (i + k)) = some ordinal ∧ taken[k]? =
          some ⟨g.columns, g.numRows, g.totalByteSize, g.fileOffset, ordinal⟩ := by
  induction groups generalizing i acc with
  | nil =>
      cases h
      refine ⟨[], (List.append_nil _).symm, rfl, ?_⟩
      intro k g hg
      cases hg
  | cons g groups ih =>
      rw [rowGroupInfos] at h
      obtain ⟨width, numbering⟩ := Except.guard_eq_ok.mp h
      cases hordinal : (g.ordinal <|> int16? i) with
      | none =>
          rw [hordinal] at numbering
          cases numbering
      | some ordinal =>
          rw [hordinal] at numbering
          obtain ⟨taken, whole, length, each⟩ := ih numbering
          refine ⟨⟨g.columns, g.numRows, g.totalByteSize, g.fileOffset, ordinal⟩ :: taken, ?_, ?_,
            ?_⟩
          · rw [whole, Array.toList_push, List.append_assoc]
            rfl
          · rw [List.length_cons, length, List.length_cons]
          · intro k g' hg'
            cases k with
            | zero =>
                cases hg'
                exact ⟨Decidable.not_not.mp width, ordinal, hordinal, rfl⟩
            | succ k =>
                obtain ⟨sameWidth, next, hnext, present⟩ := each k g' hg'
                rw [Nat.add_right_comm, Nat.add_assoc] at hnext
                exact ⟨sameWidth, next, hnext, present⟩

theorem fileInfo_eq_ok {d : Option FileDecryption} (h : fileInfo m d = .ok info) :
    TakenOver m d info := by
  rw [fileInfo] at h
  obtain ⟨schema, hschema, afterSchema⟩ := Except.bind_eq_ok.mp h
  obtain ⟨infos, numbered, done⟩ := Except.bind_eq_ok.mp afterSchema
  obtain rfl := Except.pure_eq_ok.mp done
  rw [Schema.ofElements] at hschema
  cases hcolumns : Schema.ofColumns m.schemaName
      (m.schema.map fun e => (⟨⟨e.path⟩, e.type⟩ : Column)) with
  | error cause =>
      rw [hcolumns] at hschema
      cases hschema
  | ok built =>
      rw [hcolumns] at hschema
      obtain rfl := Except.ok.inj hschema
      obtain ⟨rfl, named, distinct⟩ := Schema.ofColumns_eq_ok_iff.mp hcolumns
      obtain ⟨taken, whole, length, each⟩ := rowGroupInfos_eq_ok numbered
      rw [List.map_map] at distinct
      have paths : m.schema.map SchemaElement.path = (m.schema.map (Column.path ∘ fun e =>
          (⟨⟨e.path⟩, e.type⟩ : Column))).map ColumnPath.parts := by
        rw [List.map_map]
        rfl
      refine ⟨?_, ?_, rfl, rfl, rfl, rfl, ?_, ?_, rfl⟩
      · intro e he
        exact named _ (List.mem_map_of_mem he)
      · rw [paths]
        refine List.Pairwise.map ColumnPath.parts ?_ distinct
        rintro ⟨parts⟩ ⟨parts'⟩ unlike same
        exact unlike (congrArg ColumnPath.mk same)
      · have size := congrArg List.length whole
        rw [List.nil_append, length, Array.length_toList] at size
        exact size
      · intro i g hg
        obtain ⟨width, ordinal, hordinal, present⟩ := each i g hg
        rw [Schema.numColumns, List.length_map] at width
        rw [Nat.zero_add] at hordinal
        refine ⟨width, ordinal, hordinal, ?_⟩
        rw [← Array.getElem?_toList, whole]
        exact present

end Opening

namespace FooterReader

open Opening (AcceptedSection TakenOver)

/-- Whatever bytes a reader parses successfully, wherever they are and whatever its
settings: they end with a metadata section in an accepted form and a trailer with its length
and mode. The section is accepted for one metadata only, and this metadata is what the
reader has taken over. -/
theorem tryParse_accepts {reader parsed : FooterReader} {source : ByteSource} {s t : ReadState}
    (fresh : s.footerKey = none) (h : tryParse reader source s = ((.ok (), parsed), t)) :
    reader.state = .unopened ∧
      ∃ (front metadataSection : Bytes) (mode : FooterMode) (m : FileMetaData)
        (d : Option FileDecryption) (info : FileInfo),
        source.bytes =
          front ++ (metadataSection ++ Trailer.encode ⟨metadataSection.length, mode⟩) ∧
        metadataSection.length < UInt32.size ∧
        AcceptedSection m reader.properties.decryption mode metadataSection d ∧
        (∀ m' d', AcceptedSection m' reader.properties.decryption mode metadataSection d' →
          m = m') ∧
        TakenOver m d info ∧
        parsed = { reader with state := .metadataParsed, info := some info } := by
  by_cases unopened : reader.state = .unopened
  · refine ⟨unopened, ?_⟩
    rw [tryParse_unopened unopened] at h
    cases hfooter : Opening.readFooter reader.properties source s with
    | mk result u =>
        rw [hfooter] at h
        cases result with
        | error e => cases h
        | ok info =>
            cases h
            obtain ⟨front, metadataSection, mode, v, whole, short, sameKey, understood⟩ :=
              Opening.readFooter_eq_ok hfooter
            have accepted : ∃ m d, AcceptedSection m reader.properties.decryption mode
                metadataSection d ∧ Opening.fileInfo m d = .ok info := by
              cases mode with
              | plaintext => exact Opening.plaintextSection_eq_ok (sameKey.trans fresh) understood
              | encrypted => exact Opening.encryptedSection_eq_ok (sameKey.trans fresh) understood
            obtain ⟨m, d, form, taken⟩ := accepted
            exact ⟨front, metadataSection, mode, m, d, info, whole, short, form,
              fun m' d' other => form.unique short other, Opening.fileInfo_eq_ok taken, rfl⟩
  · rw [tryParse_used unopened] at h
    cases h

theorem tryParse_accepts_sample : ∃ m w file parsed t front metadataSection mode d info,
    FileWriter.Finished Sample.schema (Sample.properties (some Sample.encryption))
        [Sample.columns] m w ∧
      FileWriter.release w = (.ok file, w) ∧
      tryParse ⟨Sample.readerProperties fun _ => .error .footerMagic, .unopened, none⟩
        ⟨.memory, file⟩ {} = ((.ok (), parsed), t) ∧
      file = front ++ (metadataSection ++ Trailer.encode ⟨metadataSection.length, mode⟩) ∧
      ∃ m', AcceptedSection m' (some (Sample.reader fun _ => .error .footerMagic)) mode
          metadataSection d ∧
        TakenOver m' d info ∧ parsed.info = some info := by
  obtain ⟨m, w, finished⟩ := Sample.finished
  have opens : (Sample.reader fun _ => .error .footerMagic).OpensFooter Sample.encryption :=
    ⟨.brought rfl, Sample.knowsPrefix _, Sample.built.metadataNonempty⟩
  have decrypting : (Sample.readerProperties fun _ => .error .footerMagic).decryption =
      some (Sample.reader fun _ => .error .footerMagic) := rfl
  obtain ⟨_, file, f, t, _, released, opening, _⟩ :=
    OpenFile.openSource_of_finished finished rfl decrypting opens
  let reader : FooterReader :=
    ⟨Sample.readerProperties fun _ => .error .footerMagic, .unopened, none⟩
  have parsing : ∃ parsed, tryParse reader ⟨.memory, file⟩ {} = ((.ok (), parsed), t) := by
    rw [OpenFile.openSource_run] at opening
    obtain ⟨read, rfl⟩ := Prod.mk.inj opening
    rw [tryParse_unopened rfl]
    cases hresult : (Opening.readFooter reader.properties ⟨.memory, file⟩ {}).1 with
    | error e =>
        change (Opening.readFooter reader.properties _ _).1.map _ = _ at read
        rw [hresult] at read
        cases read
    | ok info => exact ⟨_, rfl⟩
  obtain ⟨parsed, parsing⟩ := parsing
  obtain ⟨_, front, metadataSection, mode, m', d, info, whole, _, form, _, taken, rfl⟩ :=
    tryParse_accepts rfl parsing
  exact ⟨m, w, file, _, t, front, metadataSection, mode, d, info, finished, released, parsing,
    whole, m', form, taken, rfl⟩

end FooterReader

end SealedColumns
