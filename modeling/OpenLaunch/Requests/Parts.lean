import OpenLaunch.Python.Items

/-! # Parts of contents

The content of an OpenAI-shaped message is a text or a list of parts, which are texts, images, or
something else. -/

namespace OpenLaunch.Requests

open Python Json

/-- A part is a dictionary, and one that is a text or an image has this. -/
def IsPart (part : Json) : Prop :=
  ∃ kvs, part = .dict kvs ∧
    (field kvs "type" = .str "text" → ∃ text, field kvs "text" = .str text) ∧
    (field kvs "type" = .str "image_url" → ∃ image url,
      field kvs "image_url" = .dict image ∧ field image "url" = .str url)

/-- The text of a part that is one. -/
def partText (part : Json) : Option String :=
  if field part.entries "type" = .str "text" then (field part.entries "text").str? else none

/-- The URL of a part that is an image. -/
def partUrl (part : Json) : Option String :=
  if field part.entries "type" = .str "image_url" then
    (field (field part.entries "image_url").entries "url").str?
  else none

end OpenLaunch.Requests
