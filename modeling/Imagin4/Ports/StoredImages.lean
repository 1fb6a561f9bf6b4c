import Imagin4.Ports.ImageClients

/-!
# The images of an OpenRouter answer

`OpenRouterImageComfyUIClient.submit` once more, with the storage as a state: every
image of an answer is put under a key made from the prompt id and the extension of its
media type.  Two images with one extension have one key, and the later one overwrites
the earlier.

`Imagin4.Ports.ImageClients` has the same loop over a storage that only answers;
`storeImages_eq` and `submitInto_eq` say that the two agree.

## Main results

* `storeImages_kept` — what an answer leaves in the storage.
* `images_kept_iff` — when no image of a successful submission is lost.
* `not_images_kept` — an answer with two images of one type.
-/

namespace Imagin4.Ports

open Imagin4.Verified

/-! ## The storage -/

/-- `InMemoryObjectStorage`: the data and the content type under a key. -/
abbrev Objects := String → Option (Bytes × String)

namespace Objects

def putObject (objects : Objects) (key : String) (data : Bytes) (contentType : String) :
    Objects :=
  Function.update objects key (some (data, contentType))

def getObject (objects : Objects) (key : String) : Except PyError Bytes :=
  match objects key with
  | none => .error "KeyError"
  | some (data, _) => .ok data

end Objects

namespace OpenRouterImageComfyUIClient

/-! ## One image -/

/-- The media type of an image. -/
def imageMime (image : Json) : Except Raised String := do
  let mediaType ← builtin (image.get "media_type")
  let mimeType ← builtin (image.get "mime_type")
  match (mediaType.orElse mimeType).orElse (.str "image/png") with
  | .str mime => .ok mime
  | _ => .error { name := "AttributeError" }

/-- The data of an image and its media type, if it has any. -/
def imageData (image : Json) : Except Raised (Option (Bytes × String)) := do
  let data ← builtin (image.get "b64_json")
  if !data.truthy then
    return none
  let mime ← imageMime image
  let bytes ← builtin (b64decode data)
  return some (bytes, mime)

/-- Is there data in the image? -/
def hasData (image : Json) : Bool :=
  match image.get "b64_json" with
  | .ok data => data.truthy
  | .error _ => false

/-- The extension of an image's key. -/
def imageExtension (image : Json) : Except Raised String :=
  mimeExtension <$> imageMime image

/-! ## The loop -/

/-- The loop over the images, from the storage and the outputs so far. -/
def storeImages (promptId : String) :
    List Json → Objects → List Output → Except Raised (List Output) × Objects
  | [], objects, outputs => (.ok outputs, objects)
  | image :: images, objects, outputs =>
      match imageData image with
      | .error exc => (.error exc, objects)
      | .ok none => storeImages promptId images objects outputs
      | .ok (some (bytes, mime)) =>
          let key := generatedKey promptId mime
          storeImages promptId images (objects.putObject key bytes mime)
            (outputs ++ [⟨key, mime⟩])

/-- The images of an answer. -/
def responseImages (response : Json) : Except Raised (List Json) := do
  let data ← builtin (response.get "data")
  builtin (data.orElse (.arr [])).iter

/-- What `submit` records of the outputs. -/
def recorded : Except Raised (List Output) → ComfyStatus
  | .ok [] => failedStatus "openrouter_no_image_in_response"
  | .ok outputs => { state := .succeeded, outputs := some outputs }
  | .error exc => failedStatus (sanitizedError exc)

/-- The end of `submit`. -/
def generateInto (services : ImageServices) (promptId promptText : String)
    (objects : Objects) : ComfyStatus × Objects :=
  match services.images promptText >>= responseImages with
  | .error exc => (recorded (.error exc), objects)
  | .ok images =>
      let (outputs, objects) := storeImages promptId images objects []
      (recorded outputs, objects)

/-- `submit`; `uuid` is the `str(uuid.uuid4())` it draws. -/
def submitInto (host : Host) (services : ImageServices) (uuid : String)
    (payload : List (String × Json)) (c : ImageClient) (objects : Objects) :
    Except PyError (String × ImageClient) × Objects :=
  match exactTexts payload with
  | .error e => (.error e, objects)
  | .ok exactText =>
      let (status, objects) :=
        if basePrompt host payload = "" ∧ exactText.isEmpty then
          (failedStatus "empty_prompt", objects)
        else generateInto services uuid (c.promptText host services payload exactText) objects
      (.ok (uuid, { c with results := c.results.set uuid status }), objects)

/-! ## The two loops -/

/-- A storage that takes everything. -/
def takesAll : Storage := fun _ _ _ => .ok ()

/-- The output of an image. -/
def outputOf (promptId : String) (found : Bytes × String) : Output :=
  ⟨generatedKey promptId found.2, found.2⟩

theorem storeImage_eq (promptId : String) (outputs : List Output) (image : Json) :
    storeImage takesAll promptId outputs image =
      (imageData image).map (fun found =>
        outputs ++ found.toList.map (outputOf promptId)) := by
  unfold storeImage imageData imageMime
  cases hData : builtin (image.get "b64_json") with
  | error exc => rfl
  | ok data =>
      by_cases hTruthy : data.truthy = true
      · cases hMedia : builtin (image.get "media_type") with
        | error exc => simp [hTruthy, bind, Except.bind, Except.map]
        | ok mediaType =>
            cases hMime : builtin (image.get "mime_type") with
            | error exc => simp [hTruthy, bind, Except.bind, Except.map]
            | ok mimeType =>
                simp only [hTruthy, bind, Except.bind, Except.map, Bool.not_true,
                  Bool.false_eq_true, if_false]
                generalize (mediaType.orElse mimeType).orElse (.str "image/png") = media
                cases media with
                | str mime =>
                    cases hBytes : builtin (b64decode data) with
                    | error exc => rfl
                    | ok bytes => rfl
                | _ => rfl
      · simp [hTruthy, bind, Except.bind, Except.map, pure, Except.pure]

/-- The outputs do not depend on what the storage holds. -/
theorem storeImages_eq (promptId : String) (images : List Json) :
    ∀ (objects : Objects) (outputs : List Output),
      (storeImages promptId images objects outputs).1 =
        images.foldlM (storeImage takesAll promptId) outputs := by
  induction images with
  | nil =>
      intro objects outputs
      rfl
  | cons image images ih =>
      intro objects outputs
      rw [List.foldlM_cons, storeImage_eq, storeImages]
      cases imageData image with
      | error exc => rfl
      | ok found =>
          cases found with
          | none =>
              show (storeImages promptId images objects outputs).1 = _
              rw [ih]
              simp [Except.map, bind, Except.bind]
          | some found =>
              show (storeImages promptId images _ _).1 = _
              rw [ih]
              rfl

/-- `generate` records the loop over the images of the answer. -/
theorem generate_eq (services : ImageServices) (promptId promptText : String) :
    generate services takesAll promptId promptText =
      recorded ((services.images promptText >>= responseImages) >>= fun images =>
        images.foldlM (storeImage takesAll promptId) []) := by
  unfold generate responseImages
  simp only [bind_assoc]
  rfl

theorem generateInto_eq (services : ImageServices) (promptId promptText : String)
    (objects : Objects) :
    (generateInto services promptId promptText objects).1 =
      generate services takesAll promptId promptText := by
  rw [generate_eq, generateInto]
  cases services.images promptText >>= responseImages with
  | error exc => rfl
  | ok images =>
      show recorded (storeImages promptId images objects []).1 = _
      rw [storeImages_eq]
      rfl

/-- The client is that of `Imagin4.Ports.ImageClients`. -/
theorem submitInto_eq (host : Host) (services : ImageServices) (uuid : String)
    (payload : List (String × Json)) (c : ImageClient) (objects : Objects)
    (h : c.provider = .openrouter) :
    (submitInto host services uuid payload c objects).1 =
      c.submit host services takesAll uuid payload := by
  unfold submitInto ImageClient.submit
  cases exactTexts payload with
  | error e => rfl
  | ok exactText =>
      simp only [bind, Except.bind, pure, Except.pure, h, ImageClient.generate,
        ← generateInto_eq services uuid _ objects]
      by_cases hEmpty : basePrompt host payload = "" ∧ exactText.isEmpty = true
      · rw [if_pos hEmpty, if_pos hEmpty]
      · rw [if_neg hEmpty, if_neg hEmpty]

/-! ## What is stored -/

section Stored

variable {promptId : String}

/-- The key of an image tells its extension. -/
theorem generatedKey_inj {mime mime' : String} :
    generatedKey promptId mime = generatedKey promptId mime' ↔
      mimeExtension mime = mimeExtension mime' := by
  unfold generatedKey
  constructor
  · intro h
    apply String.toList_inj.mp
    simpa using congrArg String.toList h
  · intro h
    rw [h]

/-- The storage after an image. -/
def putFound (promptId : String) (objects : Objects) (found : Bytes × String) : Objects :=
  objects.putObject (generatedKey promptId found.2) found.1 found.2

theorem builtin_eq_ok {α : Type} {x : Except PyError α} {a : α} :
    builtin x = .ok a ↔ x = .ok a := mapError_eq_ok

/-- What `imageData` has gone through. -/
theorem imageData_cases {image : Json} {found : Option (Bytes × String)}
    (h : imageData image = .ok found) :
    ∃ data, image.get "b64_json" = .ok data ∧
      ((data.truthy = false ∧ found = none) ∨
        ∃ mime bytes, data.truthy = true ∧ imageMime image = .ok mime ∧
          b64decode data = .ok bytes ∧ found = some (bytes, mime)) := by
  unfold imageData at h
  obtain ⟨data, hData, h⟩ := bind_eq_ok.mp h
  refine ⟨data, builtin_eq_ok.mp hData, ?_⟩
  by_cases hTruthy : data.truthy = true
  · simp only [hTruthy, Bool.not_true, Bool.false_eq_true, if_false] at h
    obtain ⟨mime, hMime, h⟩ := bind_eq_ok.mp h
    obtain ⟨bytes, hBytes, h⟩ := bind_eq_ok.mp h
    cases h
    exact .inr ⟨mime, bytes, hTruthy, hMime, builtin_eq_ok.mp hBytes, rfl⟩
  · rw [Bool.not_eq_true] at hTruthy
    simp only [hTruthy, Bool.not_false, if_true] at h
    cases h
    exact .inl ⟨hTruthy, rfl⟩

theorem hasData_of_some {image : Json} {found : Bytes × String}
    (h : imageData image = .ok (some found)) :
    hasData image = true ∧ (image.get "b64_json").bind b64decode = .ok found.1 ∧
      imageMime image = .ok found.2 := by
  obtain ⟨data, hData, ⟨-, hNone⟩ | ⟨mime, bytes, hTruthy, hMime, hBytes, hFound⟩⟩ :=
    imageData_cases h
  · cases hNone
  · cases hFound
    refine ⟨?_, ?_, hMime⟩
    · rw [hasData, hData]
      exact hTruthy
    · rw [hData]
      exact hBytes

theorem hasData_of_none {image : Json} (h : imageData image = .ok none) :
    hasData image = false := by
  obtain ⟨data, hData, ⟨hTruthy, -⟩ | ⟨mime, bytes, -, -, -, hFound⟩⟩ :=
    imageData_cases h
  · rw [hasData, hData]
    exact hTruthy
  · cases hFound

/-- The images with data, in turn, are what is put into the storage. -/
theorem storeImages_ok (images : List Json) :
    ∀ {objects objects' : Objects} {outputs outputs' : List Output},
      storeImages promptId images objects outputs = (.ok outputs', objects') →
      ∃ found, List.Forall₂ (fun image f => imageData image = .ok (some f))
          (images.filter hasData) found ∧
        outputs' = outputs ++ found.map (outputOf promptId) ∧
        objects' = found.foldl (putFound promptId) objects := by
  induction images with
  | nil =>
      intro objects objects' outputs outputs' h
      cases h
      exact ⟨[], .nil, by simp, rfl⟩
  | cons image images ih =>
      intro objects objects' outputs outputs' h
      rw [storeImages] at h
      cases hImage : imageData image with
      | error exc =>
          rw [hImage] at h
          cases h
      | ok data =>
          rw [hImage] at h
          cases data with
          | none =>
              rw [List.filter_cons_of_neg (by simp [hasData_of_none hImage])]
              exact ih h
          | some found =>
              obtain ⟨rest, hRest, rfl, rfl⟩ := ih h
              rw [List.filter_cons_of_pos (hasData_of_some hImage).1]
              exact ⟨found :: rest, .cons hImage hRest, by simp [outputOf], rfl⟩

/-- What is put under a key stays there until the key is used again. -/
theorem foldl_putFound_of_not_mem (found : List (Bytes × String)) :
    ∀ {objects : Objects} {key : String},
      key ∉ found.map (fun f => generatedKey promptId f.2) →
      found.foldl (putFound promptId) objects key = objects key := by
  induction found with
  | nil =>
      intro objects key _
      rfl
  | cons f found ih =>
      intro objects key h
      simp only [List.map_cons, List.mem_cons, not_or] at h
      rw [List.foldl_cons, ih h.2]
      exact Function.update_of_ne h.1 _ _

theorem foldl_putFound_of_mem (found : List (Bytes × String)) :
    ∀ {objects : Objects} {f : Bytes × String},
      (found.map (fun f => generatedKey promptId f.2)).Nodup → f ∈ found →
      found.foldl (putFound promptId) objects (generatedKey promptId f.2) = some f := by
  induction found with
  | nil =>
      intro objects f _ h
      cases h
  | cons first found ih =>
      intro objects f hNodup h
      obtain ⟨hFirst, hRest⟩ := List.nodup_cons.mp hNodup
      rw [List.foldl_cons]
      rcases List.mem_cons.mp h with rfl | h
      · rw [foldl_putFound_of_not_mem found hFirst]
        exact Function.update_self _ _ _
      · exact ih hRest h

theorem forall₂_getElem? {α β : Type} {R : α → β → Prop} {as : List α} {bs : List β}
    (h : List.Forall₂ R as bs) {i : Nat} {a : α} {b : β} (ha : as[i]? = some a)
    (hb : bs[i]? = some b) : R a b := by
  obtain ⟨hi, rfl⟩ := List.getElem?_eq_some_iff.mp ha
  obtain ⟨hj, rfl⟩ := List.getElem?_eq_some_iff.mp hb
  exact h.get hi hj

/-- No image is lost: the outputs are the images with data in their order, under keys
of their own, and the storage has the data of each. -/
structure ImagesKept (images : List Json) (outputs : List Output) (objects : Objects) :
    Prop where
  length : outputs.length = (images.filter hasData).length
  keys : (outputs.map Output.objectKey).Nodup
  stored {i : Nat} {image : Json} {output : Output} :
    (images.filter hasData)[i]? = some image → outputs[i]? = some output →
    ∃ bytes, (image.get "b64_json").bind b64decode = .ok bytes ∧
      objects.getObject output.objectKey = .ok bytes

/-- The images with data have extensions of their own. -/
def DistinctExtensions (images : List Json) : Prop :=
  ((images.filter hasData).map imageExtension).Nodup

instance : DecidablePred DistinctExtensions := fun images => by
  unfold DistinctExtensions
  infer_instance

theorem map_imageExtension {images : List Json} {found : List (Bytes × String)}
    (h : List.Forall₂ (fun image f => imageData image = .ok (some f)) images found) :
    images.map imageExtension =
      found.map (fun f => Except.ok (mimeExtension f.2)) := by
  induction h with
  | nil => rfl
  | cons hImage _ ih =>
      rw [List.map_cons, List.map_cons, ih, imageExtension, (hasData_of_some hImage).2.2]
      rfl

/-- The keys of the images differ as their extensions do. -/
theorem nodup_keys_iff (promptId : String) {found : List (Bytes × String)} :
    ((found.map (outputOf promptId)).map Output.objectKey).Nodup ↔
      (found.map (fun f => (Except.ok (mimeExtension f.2) : Except Raised String))).Nodup := by
  rw [List.map_map, List.Nodup, List.Nodup, List.pairwise_map, List.pairwise_map]
  refine List.Pairwise.iff (fun f g => ?_)
  simp only [Function.comp_apply, outputOf, ne_eq, generatedKey_inj, Except.ok.injEq]

/-- The loop loses no image exactly if the extensions differ. -/
theorem storeImages_kept {images : List Json} {objects objects' : Objects}
    {outputs : List Output}
    (h : storeImages promptId images objects [] = (.ok outputs, objects')) :
    ImagesKept images outputs objects' ↔ DistinctExtensions images := by
  obtain ⟨found, hFound, hOutputs, hObjects⟩ := storeImages_ok images h
  rw [List.nil_append] at hOutputs
  rw [DistinctExtensions, map_imageExtension hFound, ← nodup_keys_iff promptId,
    ← hOutputs]
  constructor
  · exact fun hKept => hKept.keys
  · intro hKeys
    refine ⟨?_, hKeys, fun {i image output} hImage hOutput => ?_⟩
    · rw [hOutputs, List.length_map, hFound.length_eq]
    · rw [hOutputs, List.getElem?_map] at hOutput
      obtain ⟨f, hf, rfl⟩ := Option.map_eq_some_iff.mp hOutput
      have hData : imageData image = .ok (some f) := forall₂_getElem? hFound hImage hf
      refine ⟨f.1, (hasData_of_some hData).2.1, ?_⟩
      have hObject : objects' (generatedKey promptId f.2) = some f := by
        rw [hObjects]
        refine foldl_putFound_of_mem found ?_ (List.mem_of_getElem? hf)
        rw [hOutputs, List.map_map] at hKeys
        exact hKeys
      simp only [Objects.getObject, outputOf, hObject]

end Stored

/-! ## A submission -/

section Submission

variable {host : Host} {services : ImageServices} {uuid promptId : String}
  {payload : List (String × Json)} {c c' : ImageClient} {objects objects' : Objects}
  {outputs : List Output}

theorem recorded_eq_succeeded {stored : Except Raised (List Output)}
    (h : recorded stored = { state := .succeeded, outputs := some outputs }) :
    stored = .ok outputs := by
  cases stored with
  | error exc => cases h
  | ok found =>
      cases found with
      | nil => cases h
      | cons output found =>
          cases h
          rfl

/-- A generation that succeeds has gone through the images of an answer. -/
theorem of_generateInto {promptText : String}
    (h : generateInto services promptId promptText objects =
      ({ state := .succeeded, outputs := some outputs }, objects')) :
    ∃ response images, services.images promptText = .ok response ∧
      responseImages response = .ok images ∧
      storeImages promptId images objects [] = (.ok outputs, objects') := by
  unfold generateInto at h
  cases hResponse : services.images promptText >>= responseImages with
  | error exc =>
      rw [hResponse] at h
      cases h
  | ok images =>
      obtain ⟨response, hAnswer, hImages⟩ := bind_eq_ok.mp hResponse
      rw [hResponse] at h
      obtain ⟨hRecorded, hObjects⟩ := Prod.mk.inj h
      refine ⟨response, images, hAnswer, hImages, ?_⟩
      rw [← recorded_eq_succeeded hRecorded, ← hObjects]

/-- Whenever a submission has recorded success. -/
theorem images_kept_iff
    (h : submitInto host services uuid payload c objects = (.ok (promptId, c'), objects'))
    (hResult : c'.results.get promptId =
      some { state := .succeeded, outputs := some outputs }) :
    ∃ exactText response images, exactTexts payload = .ok exactText ∧
      services.images (c.promptText host services payload exactText) = .ok response ∧
      responseImages response = .ok images ∧
      (ImagesKept images outputs objects' ↔ DistinctExtensions images) := by
  unfold submitInto at h
  cases hTexts : exactTexts payload with
  | error e =>
      rw [hTexts] at h
      cases h
  | ok exactText =>
      rw [hTexts] at h
      dsimp only at h
      by_cases hEmpty : basePrompt host payload = "" ∧ exactText.isEmpty = true
      · rw [if_pos hEmpty] at h
        cases h
        rw [StatusCache.get_set, if_pos rfl] at hResult
        cases hResult
      · rw [if_neg hEmpty] at h
        obtain ⟨hClient, hObjects⟩ := Prod.mk.inj h
        cases hClient
        rw [StatusCache.get_set, if_pos rfl] at hResult
        have hGenerate : generateInto services uuid
            (c.promptText host services payload exactText) objects =
              ({ state := .succeeded, outputs := some outputs }, objects') := by
          rw [← Option.some.inj hResult, ← hObjects]
        obtain ⟨response, images, hAnswer, hImages, hStored⟩ := of_generateInto hGenerate
        exact ⟨exactText, response, images, rfl, hAnswer, hImages,
          storeImages_kept hStored⟩

end Submission

/-! ## Two images -/

/-- An image of three bytes. -/
def imageOf (data mediaType : String) : Json :=
  .obj [("b64_json", .str data), ("media_type", .str mediaType)]

/-- A service that answers with some images. -/
def answering (images : List Json) : ImageServices where
  design _ _ _ := .error "RuntimeError"
  generateContent _ := .error { name := "RuntimeError" }
  images _ := .ok (.obj [("data", .arr images)])

/-- A submission to it, over an empty storage. -/
def submitted (images : List Json) : Except PyError (String × ImageClient) × Objects :=
  submitInto ⟨fun _ => "", id, fun _ => none⟩ (answering images) "u" [("prompt", .str "a cat")]
    (ImageClient.new .openrouter false) (fun _ => none)

theorem images_kept_png_webp :
    ImagesKept [imageOf "YWFh" "image/png", imageOf "YmJi" "image/webp"]
      [⟨"generated/u.png", "image/png"⟩, ⟨"generated/u.webp", "image/webp"⟩]
      (submitted [imageOf "YWFh" "image/png", imageOf "YmJi" "image/webp"]).2 := by
  obtain ⟨exactText, response, images, -, hAnswer, hImages, hKept⟩ :=
    images_kept_iff (rfl : submitted [imageOf "YWFh" "image/png", imageOf "YmJi" "image/webp"] =
      _) rfl
  cases hAnswer
  cases hImages
  exact hKept.mpr (by decide)

/-- Both images are recorded under one key, and the first is lost. -/
theorem not_images_kept :
    ∃ c' objects', submitted [imageOf "YWFh" "image/png", imageOf "YmJi" "image/png"] =
        (.ok ("u", c'), objects') ∧
      c'.results.get "u" = some
        ⟨.succeeded,
          some [⟨"generated/u.png", "image/png"⟩, ⟨"generated/u.png", "image/png"⟩],
          none⟩ ∧
      objects'.getObject "generated/u.png" = .ok [98, 98, 98] ∧
      ¬ ImagesKept [imageOf "YWFh" "image/png", imageOf "YmJi" "image/png"]
        [⟨"generated/u.png", "image/png"⟩, ⟨"generated/u.png", "image/png"⟩] objects' := by
  refine ⟨_, _, rfl, rfl, rfl, fun hKept => ?_⟩
  have hKeys := hKept.keys
  revert hKeys
  decide

end OpenRouterImageComfyUIClient

end Imagin4.Ports
