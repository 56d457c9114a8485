import ScalableVector.Emitter.Sink
import ScalableVector.Main
import ScalableVector.Proofs.AddressText
import ScalableVector.Proofs.AllOrNothing
import ScalableVector.Proofs.AnyCase
import ScalableVector.Proofs.Bounded
import ScalableVector.Proofs.Classification
import ScalableVector.Proofs.Domain
import ScalableVector.Proofs.Dump
import ScalableVector.Proofs.FailedGrowth
import ScalableVector.Proofs.FaithfulTrace
import ScalableVector.Proofs.FeatureList
import ScalableVector.Proofs.FloatCode
import ScalableVector.Proofs.FrontEnd
import ScalableVector.Proofs.Gather
import ScalableVector.Proofs.Growth
import ScalableVector.Proofs.Immediate
import ScalableVector.Proofs.Independence
import ScalableVector.Proofs.Journal
import ScalableVector.Proofs.Numeral
import ScalableVector.Proofs.Overwriting
import ScalableVector.Proofs.ReadDomain
import ScalableVector.Proofs.RegisterText
import ScalableVector.Proofs.Release
import ScalableVector.Proofs.Requirement
import ScalableVector.Proofs.Respaced
import ScalableVector.Proofs.RoundTrip
import ScalableVector.Proofs.Run
import ScalableVector.Proofs.Separation
import ScalableVector.Proofs.ShiftCode
import ScalableVector.Proofs.SinkAgreement
import ScalableVector.Proofs.Tape
import ScalableVector.Proofs.Tuple
import ScalableVector.Segment.Basic
