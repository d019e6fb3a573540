import FaceRecognition.Library.CppString
import FaceRecognition.Library.CppFloat
import FaceRecognition.Library.FixedText
import FaceRecognition.Library.Printing
import FaceRecognition.Library.GapScan
import FaceRecognition.Library.RunningMax
import FaceRecognition.Library.Run
import FaceRecognition.Library.Batch
import FaceRecognition.Library.Rotation
import FaceRecognition.Library.Directions
import FaceRecognition.Library.GramSpan
import FaceRecognition.Library.SparseMean
import FaceRecognition.Library.RadialBasis
import FaceRecognition.Library.FarthestFirst
import FaceRecognition.Library.Greedy
import FaceRecognition.Library.HeapTree
import FaceRecognition.Library.ByteStream
import FaceRecognition.Library.BinaryFloat
import FaceRecognition.Library.PlaneFit
import FaceRecognition.Calc
import FaceRecognition.Matching
import FaceRecognition.SearchModes
import FaceRecognition.CheckAttendance
import FaceRecognition.AttendanceRuns
import FaceRecognition.Similarity
import FaceRecognition.ImagePaths
import FaceRecognition.CropSave
import FaceRecognition.CropDirectory
import FaceRecognition.CropProcesses
import FaceRecognition.CropFaceImg
import FaceRecognition.EyePlacement
import FaceRecognition.CropRegions
import FaceRecognition.CropInside
import FaceRecognition.CropPixels
import FaceRecognition.BoxOverlap
import FaceRecognition.ObjectDetector
import FaceRecognition.PointTransforms
import FaceRecognition.ShapePredictor
import FaceRecognition.Landmarks
import FaceRecognition.Serialize
import FaceRecognition.SerializeExact
import FaceRecognition.PredictorFile
import FaceRecognition.BmpImage
import FaceRecognition.BmpRows
import FaceRecognition.BmpCommands
import FaceRecognition.BmpLoading
import FaceRecognition.BmpSaved
import FaceRecognition.Events
import FaceRecognition.CropMain
import FaceRecognition.Kkmeans
import FaceRecognition.KkmeansTraining
import FaceRecognition.KkmeansSeeds
import FaceRecognition.Kcentroid
import FaceRecognition.KcentroidConvention
import FaceRecognition.DistanceFunction
import FaceRecognition.RadialBasisKernel
import FaceRecognition.KcentroidRefines
import FaceRecognition.KcentroidQueries
import FaceRecognition.HeadTrack
import FaceRecognition.HeadMain
import FaceRecognition.BatchRuns
import FaceRecognition.HeadCluster
