import Conformance.Basic
import Conformance.Float
import Conformance.ImageCache
import Conformance.Image
import Conformance.DrawRect
import Conformance.BakedFont
import Conformance.PutText
import Conformance.Layout
import Conformance.CopyWithStride
import Conformance.TextFrame
import Conformance.ImageCacheRuns
import Conformance.Load
import Conformance.TextLayout
import Conformance.NumberGrid
import Conformance.Pitch
