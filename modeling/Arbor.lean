import Arbor.Index.Summary
import Arbor.Landmark.Bowl
import Arbor.Scalar.Binary
import Arbor.Scene
import Arbor.Proofs.Blueprint.Steps
import Arbor.Proofs.Blueprint.Parts
import Arbor.Proofs.FileTree.Address
import Arbor.Proofs.Blueprint.Growth
import Arbor.Proofs.Blueprint.Limbs
import Arbor.Proofs.Pipeline.Markers
import Arbor.Proofs.Pipeline.Mirror
import Arbor.Proofs.Turtle.Rooted
import Arbor.Proofs.Turtle.Forest
import Arbor.Proofs.Scalar.Real
import Arbor.Proofs.Space.Distance
import Arbor.Proofs.Index.Block
import Arbor.Proofs.Index.Contents
import Arbor.Proofs.Index.Sampling
import Arbor.Proofs.Index.Nearest
import Arbor.Proofs.Index.Markers
import Arbor.Proofs.Index.Radius
import Arbor.Proofs.Index.NearestMarker
import Arbor.Proofs.Turtle.Alike
import Arbor.Proofs.Turtle.Bracket
import Arbor.Proofs.Turtle.Exchange
import Arbor.Proofs.Index.Soundness
import Arbor.Proofs.Turtle.Unknown
import Arbor.Proofs.Blueprint.Sprouts
import Arbor.Proofs.Pipeline.Tips
import Arbor.Proofs.Pipeline.Census
import Arbor.Proofs.Pipeline.Kinds
import Arbor.Proofs.Scalar.Order
import Arbor.Proofs.Space.Bounds
import Arbor.Proofs.Scalar.Trig
import Arbor.Proofs.Space.Reflection
import Arbor.Proofs.Turtle.Reflection
import Arbor.Proofs.Camera.Phases
import Arbor.Proofs.Camera.Wall
import Arbor.Proofs.Grammar.WellFormed
import Arbor.Proofs.Grammar.Homomorphism
import Arbor.Proofs.Landmark.Trunk
import Arbor.Proofs.Index.Crossing
import Arbor.Proofs.Index.Unmeasured
import Arbor.Proofs.Blueprint.Siblings
import Arbor.Proofs.Blueprint.Risk
import Arbor.Proofs.Space.Euclidean
import Arbor.Proofs.Space.Quaternion
import Arbor.Proofs.Turtle.Rigid
import Arbor.Proofs.Camera.Approach
import Arbor.Proofs.Camera.Envelope
import Arbor.Proofs.Landmark.Reach
import Arbor.Proofs.Skeleton.Forks
import Arbor.Proofs.Camera.Report
import Arbor.Proofs.Index.Size
import Arbor.Proofs.Space.Projection
import Arbor.Proofs.Turtle.Resized
import Arbor.Proofs.Camera.Samples
import Arbor.Proofs.Scalar.Encoding
import Arbor.Proofs.Scalar.Magnitude
import Arbor.Proofs.Camera.Endless
import Arbor.Proofs.Generator.Share
import Arbor.Proofs.Landmark.Bowl
import Arbor.Proofs.Landmark.Likeness
import Arbor.Proofs.Symbols.Decimal
import Arbor.Proofs.Blueprint.Measures
import Arbor.Proofs.Symbols.Longest
import Arbor.Proofs.Generator.Period
import Arbor.Proofs.FileTree.Hash
